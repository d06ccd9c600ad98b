/-
Who stands in the registry of a connection.

A command is registered before its request is written, and its number is taken out again by
a reply, by a write that fails, by the end of the command's time, or with all others when
the reader ends.  What has become of a command thus tells whether its number is in the
registry (`Command.Agrees`), and every step keeps that.  Of the commands somebody waits for,
those in the registry are exactly the ones for which nothing has come.

Nothing takes out a command that nobody waits for any more: its number stays until a reply
with it comes or the registry is cleared.
-/
import Wayfind.Proofs.Connection.Correlation

namespace Wayfind.Connection

/-- Somebody waits for the command, and nothing has come for it. -/
def Command.Waits (d : Command) : Prop :=
  (d.stage = .registered ∨ d.stage = .waiting) ∧ d.mail = .nothing

/-- How far a command has come, and what has come for it, agree with whether it is registered. -/
def Command.Agrees (d : Command) (listed : Prop) : Prop :=
  match d.stage with
  | .numbered => ¬ listed ∧ d.mail = .nothing
  | .registered | .waiting => listed ↔ d.mail = .nothing
  | .ended _ => ¬ listed
  | .abandoned => listed → d.mail = .nothing

/-- The registry agrees with every command. -/
def Filed (c : Connection) : Prop := ∀ d ∈ c.commands, d.Agrees (d.id ∈ c.registry)

section Agrees

variable {d : Command} {listed : Prop}

theorem Command.Agrees.congr {listed' : Prop} (h : d.Agrees listed) (hsame : listed ↔ listed') :
    d.Agrees listed' :=
  propext hsame ▸ h

theorem Command.Agrees.numbered (h : d.Agrees listed) (hs : d.stage = .numbered) :
    ¬ listed ∧ d.mail = .nothing := by
  rw [Command.Agrees, hs] at h
  exact h

theorem Command.Agrees.open_ (h : d.Agrees listed)
    (hs : d.stage = .registered ∨ d.stage = .waiting) : listed ↔ d.mail = .nothing := by
  rcases hs with hs | hs <;> rw [Command.Agrees, hs] at h <;> exact h

/-- A registered command waits, unless nobody waits for it any more. -/
theorem Command.Agrees.waits (h : d.Agrees listed) (hlisted : listed) :
    d.Waits ∨ d.stage = .abandoned := by
  cases hs : d.stage with
  | numbered => exact absurd hlisted (h.numbered hs).left
  | registered => exact Or.inl ⟨Or.inl hs, (h.open_ (Or.inl hs)).mp hlisted⟩
  | waiting => exact Or.inl ⟨Or.inr hs, (h.open_ (Or.inr hs)).mp hlisted⟩
  | ended outcome =>
    rw [Command.Agrees, hs] at h
    exact absurd hlisted h
  | abandoned => exact Or.inr rfl

/-- Nothing has come for a registered command. -/
theorem Command.Agrees.mail (h : d.Agrees listed) (hlisted : listed) : d.mail = .nothing := by
  rcases h.waits hlisted with hwaits | hs
  · exact hwaits.right
  · rw [Command.Agrees, hs] at h
    exact h hlisted

/-- What comes for a registered command takes it out of the registry. -/
theorem Command.Agrees.delivered (h : d.Agrees listed) (hlisted : listed) (mail : Mail)
    (hmail : mail ≠ .nothing) : ({ d with mail := mail } : Command).Agrees False := by
  rcases h.waits hlisted with ⟨hs | hs, -⟩ | hs <;> rw [Command.Agrees] <;> dsimp only <;> rw [hs]
  · exact ⟨False.elim, hmail⟩
  · exact ⟨False.elim, hmail⟩
  · exact False.elim

end Agrees

section Step

variable {past : List Moment} {c after : Connection} {act : Act}

/-- A step that changes one command, and the registry for that one at most. -/
theorem Filed.modify (h : c.Filed) {id : CommandId} {change : Command → Command}
    (hcommands : after.commands = (c.modify id change).commands)
    (hchange : ∀ d, (change d).id = d.id)
    (hothers : ∀ other, other ≠ id → (other ∈ c.registry ↔ other ∈ after.registry))
    (hself : ∀ d ∈ c.commands, d.id = id → (change d).Agrees (id ∈ after.registry)) :
    after.Filed := by
  intro d' hd'
  rw [hcommands] at hd'
  obtain ⟨d, hd, rfl⟩ := List.mem_map.mp hd'
  by_cases hid : d.id = id
  · rw [if_pos hid, hchange, hid]
    exact hself d hd hid
  · rw [if_neg hid]
    exact (h d hd).congr (hothers d.id hid)

theorem Filed.same (h : c.Filed) (hcommands : after.commands = c.commands)
    (hregistry : after.registry = c.registry) : after.Filed := by
  intro d hd
  rw [hregistry]
  exact h d (hcommands ▸ hd)

/-- A number that is taken out is not in the registry, and the others are as before. -/
theorem mem_unregister_of_ne {id other : CommandId} (hne : other ≠ id) :
    other ∈ c.registry ↔ other ∈ (c.unregister id).registry :=
  ⟨fun h => mem_unregister.mpr ⟨h, hne⟩, fun h => (mem_unregister.mp h).left⟩

/-- To end a command takes it out of the registry. -/
theorem Filed.ended (h : c.Filed) (id : CommandId) (outcome : Except Error Json) :
    ((c.unregister id).finish id outcome).Filed :=
  h.modify rfl (fun _ => rfl) (fun _ => mem_unregister_of_ne)
    fun _ _ _ hlisted => (mem_unregister.mp hlisted).right rfl

/-- A command for which something has come is not in the registry any more. -/
theorem Filed.collect (h : c.Filed) (id : CommandId) : (c.collect id).Filed := by
  rcases collect_cases c id with hsame | ⟨d, outcome, hd, rfl, hs, harrived, hcollect⟩
  · rw [hsame]
    exact h
  · rw [hcollect]
    refine h.modify rfl (fun _ => rfl) (fun _ _ => Iff.rfl) fun e he hid hlisted => ?_
    have hmail : d.mail = .nothing := (h d hd).mail hlisted
    rw [Command.arrived, hmail] at harrived
    cases harrived

/-- Every step keeps the registry in agreement with the commands. -/
theorem Filed.step (h : c.Filed) (hsound : Sound past c) (hstep : Step c act after) :
    after.Filed := by
  cases hstep with
  | @start method id after hstart =>
    unfold Connection.start at hstart
    by_cases hactive : c.active = true
    · rw [if_pos hactive] at hstart
      obtain ⟨-, rfl⟩ := Prod.mk.inj (Except.ok.inj hstart)
      intro d hd
      rcases List.mem_append.mp hd with hd | hd
      · exact h d hd
      · obtain rfl := List.mem_singleton.mp hd
        refine ⟨fun hlisted => ?_, rfl⟩
        obtain ⟨e, he, hid, -⟩ := hsound.listed _ hlisted
        exact absurd hid (Nat.ne_of_lt (hsound.below e he))
    · rw [if_neg hactive] at hstart
      exact absurd hstart nofun
  | @register d hd hs =>
    refine h.modify rfl (fun _ => rfl) (fun other hne => ?_) fun e he hid => ?_
    · exact ⟨List.mem_cons_of_mem _, fun hother => (List.mem_cons.mp hother).resolve_left hne⟩
    · obtain rfl := hsound.distinct.eq he hd hid
      exact ⟨fun _ => ((h e he).numbered hs).right, fun _ => List.mem_cons_self⟩
  | @written d hd hs =>
    refine h.modify rfl (fun _ => rfl) (fun _ _ => Iff.rfl) fun e he hid => ?_
    obtain rfl := hsound.distinct.eq he hd hid
    exact (h e he).open_ (Or.inl hs)
  | @writeFailed d hd hs => exact h.ended d.id _
  | receive text =>
    unfold Connection.receive
    split
    · rename_i r hreply
      unfold Connection.reply
      by_cases hlisted : c.registry.contains r.id = true
      · rw [if_pos hlisted]
        refine h.modify rfl (fun _ => rfl) (fun _ => mem_unregister_of_ne) fun d hd hid => ?_
        refine ((h d hd).delivered (hid ▸ List.contains_iff_mem.mp hlisted) (.reply r) nofun).congr ?_
        exact ⟨False.elim, fun hin => (mem_unregister.mp hin).right rfl⟩
      · rw [if_neg hlisted]
        exact h
    · exact h.same rfl rfl
    · exact h
  | collect id => exact h.collect id
  | expire id =>
    rcases expire_cases c id with hsame | hsame | ⟨d, hd, rfl, hs, hexpire⟩
    · rw [hsame]
      exact h.collect id
    · rw [hsame]
      exact h
    · rw [hexpire]
      exact h.ended d.id _
  | @abandon d hd hs =>
    exact h.modify rfl (fun _ => rfl) (fun _ _ => Iff.rfl) fun e he hid hlisted =>
      (h e he).mail (hid ▸ hlisted)
  | sever =>
    intro d' hd'
    obtain ⟨d, hd, rfl⟩ := List.mem_map.mp hd'
    by_cases hlisted : d.id ∈ c.registry
    · rw [if_pos (List.contains_iff_mem.mpr hlisted)]
      exact ((h d hd).delivered hlisted .severed nofun).congr ⟨False.elim, nofun⟩
    · rw [if_neg fun hin => hlisted (List.contains_iff_mem.mp hin)]
      exact (h d hd).congr ⟨fun hin => absurd hin hlisted, nofun⟩
  | deactivate | listen | unlisten | takeEvents => exact h.same rfl rfl

/-- A number leaves the registry with a reply, or because its command or the connection ends. -/
theorem Step.leaves (hstep : Step c act after) {id : CommandId} (hin : id ∈ c.registry)
    (hout : id ∉ after.registry) :
    (∃ r, Moment.Answers ⟨c, act, after⟩ id r) ∨ act = .sever ∨
      (act = .writeFailed id ∨ act = .expire id) ∧
        ∃ d ∈ c.commands, d.id = id ∧ d.stage ≠ .abandoned := by
  have hsame {other : CommandId} (hgone : id ∉ (c.unregister other).registry) : id = other := by
    by_contra hne
    exact hgone (mem_unregister.mpr ⟨hin, hne⟩)
  cases hstep with
  | @start method id' after hstart =>
    unfold Connection.start at hstart
    by_cases hactive : c.active = true
    · rw [if_pos hactive] at hstart
      obtain ⟨-, rfl⟩ := Prod.mk.inj (Except.ok.inj hstart)
      exact absurd hin hout
    · rw [if_neg hactive] at hstart
      exact absurd hstart nofun
  | register => exact absurd (List.mem_cons_of_mem _ hin) hout
  | @writeFailed d hd hs =>
    obtain rfl := hsame hout
    exact Or.inr (Or.inr ⟨Or.inl rfl, d, hd, rfl, hs ▸ nofun⟩)
  | receive text =>
    unfold Connection.receive at hout
    split at hout
    · rename_i r hreply
      unfold Connection.reply at hout
      by_cases hlisted : c.registry.contains r.id = true
      · rw [if_pos hlisted] at hout
        exact Or.inl ⟨r, ⟨text, rfl, hreply⟩, (hsame hout).symm, hin⟩
      · rw [if_neg hlisted] at hout
        exact absurd hin hout
    · exact absurd hin hout
    · exact absurd hin hout
  | collect other =>
    rcases collect_cases c other with hcollect | ⟨d, outcome, -, -, -, -, hcollect⟩ <;>
      rw [hcollect] at hout <;> exact absurd hin hout
  | expire other =>
    rcases expire_cases c other with hexpire | hexpire | ⟨d, hd, rfl, hs, hexpire⟩
    · rw [hexpire] at hout
      rcases collect_cases c other with hcollect | ⟨d, outcome, -, -, -, -, hcollect⟩ <;>
        rw [hcollect] at hout <;> exact absurd hin hout
    · rw [hexpire] at hout
      exact absurd hin hout
    · rw [hexpire] at hout
      obtain rfl := hsame hout
      exact Or.inr (Or.inr ⟨Or.inr rfl, d, hd, rfl, hs ▸ nofun⟩)
  | sever => exact Or.inr (Or.inl rfl)
  | written | abandon | deactivate | listen | unlisten | takeEvents => exact absurd hin hout

end Step

theorem Course.filed {past : List Moment} {c : Connection} (h : Course past c) : c.Filed := by
  induction h with
  | opened => exact nofun
  | step h hstep ih => exact ih.step h.sound hstep

/-! ### The whole course -/

/-- The registry belongs to the commands of a course. -/
structure Kept (past : List Moment) (c : Connection) : Prop where
  /-- Every number is that of a command that waits, or that nobody waits for any more. -/
  owner : ∀ id ∈ c.registry, ∃ d ∈ c.commands, d.id = id ∧ (d.Waits ∨ d.stage = .abandoned)
  /-- Every command that waits is registered. -/
  waits : ∀ d ∈ c.commands, d.Waits → d.id ∈ c.registry
  /-- A number goes with a reply, or because its command or the connection ends. -/
  leaves : ∀ m ∈ past, ∀ id ∈ m.before.registry, id ∉ m.after.registry →
    (∃ r, m.Answers id r) ∨ m.act = .writeFailed id ∨ m.act = .expire id ∨ m.act = .sever
  /-- That of a command nobody waits for has no end of its own. -/
  lingers : ∀ m ∈ past, ∀ d ∈ m.before.commands, d.stage = .abandoned → d.id ∈ m.before.registry →
    d.id ∉ m.after.registry → (∃ r, m.Answers d.id r) ∨ m.act = .sever

/-- However the steps of a connection follow upon each other, the registry holds the numbers of the
commands that wait, and beside them only numbers that nobody waits for any more. -/
theorem kept_of_course {past : List Moment} {c : Connection} (h : Course past c) : Kept past c := by
  constructor
  case owner =>
    intro id hid
    obtain ⟨d, hd, rfl, -⟩ := h.sound.listed id hid
    exact ⟨d, hd, rfl, (h.filed d hd).waits hid⟩
  case waits => exact fun d hd hwaits => ((h.filed d hd).open_ hwaits.left).mpr hwaits.right
  case leaves =>
    intro m hm id hin hout
    obtain ⟨_, _, -, -, hstep⟩ := h.before hm
    rcases hstep.leaves hin hout with hreply | hact | ⟨hact | hact, -⟩
    · exact Or.inl hreply
    · exact Or.inr (Or.inr (Or.inr hact))
    · exact Or.inr (Or.inl hact)
    · exact Or.inr (Or.inr (Or.inl hact))
  case lingers =>
    intro m hm d hd hs hin hout
    obtain ⟨_, _, -, hbefore, hstep⟩ := h.before hm
    rcases hstep.leaves hin hout with hreply | hact | ⟨-, e, he, hid, hs'⟩
    · exact Or.inl hreply
    · exact Or.inr hact
    · -- No other command has its number.
      exact absurd (hbefore.sound.distinct.eq he hd hid ▸ hs) hs'

/-- Somebody gives up a command whose request is written: its number stays. -/
example : ∃ past c, Course past c ∧ c.registry = [1] ∧ ∀ d ∈ c.commands, d.stage = .abandoned := by
  have hstart := Course.opened.step (.start (show Connection.start _ "A" = _ from rfl))
  have hlisted := hstart.step (.register (d := ⟨1, "A", .numbered, .nothing⟩) (.head _) rfl)
  have hwritten := hlisted.step (.written (d := ⟨1, "A", .registered, .nothing⟩) (.head _) rfl)
  have hleft := hwritten.step (.abandon (d := ⟨1, "A", .waiting, .nothing⟩) (.head _) nofun)
  exact ⟨_, _, hleft, rfl, List.forall_mem_singleton.mpr rfl⟩

end Wayfind.Connection
