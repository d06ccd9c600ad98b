/-
One activity that remembers what has interrupted it.

`Steady` follows an activity through the world, and forgets by which token it was interrupted.
But a token that is cancelled stays so, and whoever asks for it later is told.  `Abides`
carries the tokens along that are known to be cancelled.  Of the world it keeps a view that
nobody but the activity itself changes: so what the view shows when the activity begins to
wait is what it shows when it goes on, and every wait may be in a state of its own.
-/
import Wayfind.Proofs.Activity.Steady

namespace Wayfind.Activity

open Timeline (advance resume runTask)

variable {S : Signature} {B : Backend S} {α β V : Type}

/-! ### Tokens stay cancelled -/

section Cancelled

variable {tl after : Timeline S B.World} {t : Token}

theorem forkAll_cancelled (jobs : List S.Job) (tl : Timeline S B.World) (t : Token) :
    (tl.forkAll B jobs).isCancelled t = tl.isCancelled t := by
  unfold Timeline.isCancelled
  rw [(Timeline.forkAll_keeps jobs tl).2.2.1]

theorem perform_cancelled {r : Request S} {a : r.Answer}
    (hp : Timeline.perform B tl r = some (a, after)) (ht : tl.isCancelled t = true) :
    after.isCancelled t = true := by
  cases Timeline.performs hp with
  | query q => exact (forkAll_cancelled _ _ t).trans ht
  | close inbox => exact (forkAll_cancelled _ _ t).trans ht
  | newToken parent =>
    have hmade : t ≠ tl.tokens.count := Nat.ne_of_lt (Tokens.lt_count_of_isCancelled ht)
    show (tl.tokens.make parent).2.isCancelled t = true
    rw [Tokens.isCancelled_make, if_neg hmade]
    exact ht
  | cancel u => exact (Timeline.isCancelled_cancel tl u t).mpr (Or.inr ht)
  | discard u => exact (Tokens.isCancelled_discard tl.tokens u t).trans ht
  | post inbox m =>
    unfold Timeline.post
    split <;> exact ht
  | _ => exact ht

theorem advance_cancelled (p : Activity S α) (ht : tl.isCancelled t = true) :
    (advance B p tl).2.isCancelled t = true := by
  induction p generalizing tl with
  | done a => exact ht
  | ask r ws duties next stop ihn ihs =>
    rcases hp : Timeline.perform B tl r with _ | ⟨a, mid⟩
    · simp only [advance, hp]
      exact ht
    · simp only [advance, hp]
      exact ihn a (perform_cancelled hp ht)

theorem resume_cancelled (p : Activity S α) (ht : tl.isCancelled t = true) :
    (resume B p tl).2.isCancelled t = true := by
  cases p with
  | done a => exact ht
  | ask r ws duties next stop =>
    simp only [resume]
    split
    · exact advance_cancelled _ ht
    · exact advance_cancelled _ ht

theorem runTask_cancelled (id : Nat) (ht : tl.isCancelled t = true) :
    (runTask B tl id).isCancelled t = true := by
  unfold runTask
  split
  · exact ht
  · rename_i task hfind
    have hgone : (resume B task.activity { tl with tasks := tl.tasks.filter (·.id != id) }).2.isCancelled t = true :=
      resume_cancelled task.activity ht
    revert hgone
    generalize resume B task.activity { tl with tasks := tl.tasks.filter (·.id != id) } = next
    obtain ⟨p, mid⟩ := next
    intro hgone
    cases p with
    | done a => exact hgone
    | ask r ws duties next stop => exact hgone

end Cancelled

/-! ### The view in the foreground -/

/-- The answer tells of a token that is known to be cancelled that it is. -/
def Request.Agrees (known : List Token) : (r : Request S) → r.Answer → Prop
  | .isCancelled t, a => t ∈ known → a = true
  | _, _ => True

/-- The activity, run with such a view of the world and with these tokens known to be cancelled, ends
as it should.  Wherever it may have to wait the view is as said; and a token that interrupts it there is
known to be cancelled from then on. -/
def Abides (view : B.World → V) (halting : V → Prop) (Q : α → List Token → V → Prop) :
    Activity S α → List Token → V → Prop
  | .done a, known, v => Q a known v
  | .ask r _ _ next stop, known, v =>
    (∀ w a w', view w = v → r.Leads B w a w' → r.Agrees known a →
      Abides view halting Q (next a) known (view w')) ∧
    (r.waits = true → halting v ∧ ∀ t h, Abides view halting Q (stop t h) (t :: known) v)

section Abides

variable {view : B.World → V} {halting : V → Prop} {Q : α → List Token → V → Prop}
  {known : List Token} {v : V}

theorem Abides.mono {Q' : α → List Token → V → Prop} {p : Activity S α}
    (h : Abides view halting Q p known v) (hQ : ∀ a known v, Q a known v → Q' a known v) :
    Abides view halting Q' p known v := by
  induction p generalizing known v with
  | done a => exact hQ a known v h
  | ask r ws duties next stop ihn ihs =>
    refine ⟨fun w a w' hw hl ha => ihn a (h.1 w a w' hw hl ha), fun hr => ?_⟩
    exact ⟨(h.2 hr).1, fun t ht => ihs t ht ((h.2 hr).2 t ht)⟩

/-- Less may be said of the view where the activity waits. -/
theorem Abides.relax {outer : V → Prop} {p : Activity S α} (h : Abides view halting Q p known v)
    (houter : ∀ v, halting v → outer v) : Abides view outer Q p known v := by
  induction p generalizing known v with
  | done a => exact h
  | ask r ws duties next stop ihn ihs =>
    refine ⟨fun w a w' hw hl ha => ihn a (h.1 w a w' hw hl ha), fun hr => ?_⟩
    exact ⟨houter v (h.2 hr).1, fun t ht => ihs t ht ((h.2 hr).2 t ht)⟩

theorem abides_bind {Q : β → List Token → V → Prop} {p : Activity S α} {f : α → Activity S β} :
    Abides view halting Q (bind p f) known v ↔
      Abides view halting (fun a known v => Abides view halting Q (f a) known v) p known v := by
  induction p generalizing known v with
  | done a => exact Iff.rfl
  | ask r ws duties next stop ihn ihs => simp only [bind, Abides, ihn, ihs]

theorem abides_protect {p : Activity S α} (duties : List (Duty S)) :
    Abides view halting Q (protect duties p) known v ↔ Abides view halting Q p known v := by
  induction p generalizing known v with
  | done a => exact Iff.rfl
  | ask r ws own next stop ihn ihs => simp only [protect, Abides, ihn, ihs]

/-- A request that does not wait. -/
theorem abides_perform {Q : β → List Token → V → Prop} {r : Request S} {f : r.Answer → Activity S β}
    (hr : r.waits = false) (h : ∀ w a w', view w = v → r.Leads B w a w' → r.Agrees known a →
      Abides view halting Q (f a) known (view w')) :
    Abides view halting Q (bind (Activity.perform r) f) known v :=
  abides_bind.mpr ⟨h, fun hw => absurd (hr.symm.trans hw) Bool.false_ne_true⟩

/-- To wait for a time is to go on when it has come, for nothing else interrupts it. -/
theorem abides_sleep {Q : β → List Token → V → Prop} (ms : Nat) {f : Unit → Activity S β}
    (hv : halting v) (h : Abides view halting Q (f ()) known v) :
    Abides view halting Q (bind (Activity.sleep ms) f) known v := by
  refine abides_bind.mpr (abides_perform rfl fun w (now : Nat) w' hw hl _ => ?_)
  obtain rfl : w' = w := hl
  rw [hw]
  refine ⟨fun u (_ : Unit) u' hu hl _ => ?_, fun _ => ⟨hv, nofun⟩⟩
  obtain rfl : u' = u := hl
  rw [hu]
  exact h

theorem abides_fulfilThen {p : Activity S α} (duties : List (Duty S))
    (h : Abides view halting Q p known v) : Abides view halting Q (fulfilThen p duties) known v := by
  induction duties with
  | nil => exact h
  | cons d rest ih =>
    cases d with
    | fork | cancel | close =>
      refine abides_perform rfl fun w a w' hw hl _ => ?_
      obtain rfl : w' = w := hl
      rw [hw]
      exact ih

/-- Under a token, what takes the place of the activity has to end as it should where the activity may
have waited; the token is known to be cancelled then.  What the activity says of its waits may be
forgotten. -/
theorem Abides.guard {outer : V → Prop} {p halt : Activity S α} {t : Token}
    (h : Abides view halting Q p known v) (houter : ∀ v, halting v → outer v)
    (hhalt : ∀ known v, t ∈ known → halting v → Abides view outer Q halt known v) :
    Abides view outer Q (guard t halt p) known v := by
  induction p generalizing known v with
  | done a => exact h
  | ask r ws duties next stop ihn ihs =>
    refine ⟨fun w a w' hw hl ha => ihn a (h.1 w a w' hw hl ha), fun hr => ?_⟩
    obtain ⟨hv, hstop⟩ := h.2 hr
    refine ⟨houter v hv, fun s hs => ?_⟩
    dsimp only
    split
    · rename_i hsame
      refine abides_fulfilThen duties (hhalt (s :: known) v ?_ hv)
      rw [hsame]
      exact List.mem_cons_self
    · exact ihs s _ (hstop s _)

/-- What asks only mild questions leaves the view as it is, and no token is forgotten. -/
theorem Innocent.abides {mild : S.Query → Prop} {p : Activity S α} (hp : Innocent mild p)
    (hview : ∀ v, KeptBy B mild fun w => view w = v) (hv : halting v) :
    Abides view halting (fun _ more u => u = v ∧ known ⊆ more) p known v := by
  suffices h : ∀ more, known ⊆ more → Abides view halting (fun _ more u => u = v ∧ known ⊆ more) p more v from
    h known (List.Subset.refl known)
  induction p with
  | done a => exact fun more hmore => ⟨rfl, hmore⟩
  | ask r ws duties next stop ihn ihs =>
    intro more hmore
    refine ⟨fun w a w' hw hl _ => ?_, fun _ => ⟨hv, fun t ht => ?_⟩⟩
    · rw [(hview v).leads hp.1.1 hl hw]
      exact ihn a (hp.2.1 a) more hmore
    · exact ihs t ht (hp.2.2 t ht) (t :: more) (List.subset_cons_of_subset t hmore)

/-! ### Turns -/

/-- The activity has ended as it should, or waits for something and goes on as it should. -/
def Halts (view : B.World → V) (halting : V → Prop) (Q : α → List Token → V → Prop)
    (p : Activity S α) (known : List Token) (v : V) : Prop :=
  Abides view halting Q p known v ∧ match p with
    | .done _ => True
    | .ask r _ _ _ _ => r.waits = true

theorem advance_abides {p : Activity S α} {tl : Timeline S B.World}
    (h : Abides view halting Q p known (view tl.world))
    (hknown : ∀ t ∈ known, tl.isCancelled t = true) :
    Halts view halting Q (advance B p tl).1 known (view (advance B p tl).2.world) := by
  induction p generalizing tl with
  | done a => exact ⟨h, trivial⟩
  | ask r ws duties next stop ihn ihs =>
    rcases hp : Timeline.perform B tl r with _ | ⟨a, after⟩
    · simp only [advance, hp]
      exact ⟨h, waits_of_perform hp⟩
    · have hagrees : r.Agrees known a := by
        cases Timeline.performs hp with
        | isCancelled t => exact hknown t
        | _ => trivial
      simp only [advance, hp]
      exact ihn a (h.1 tl.world a after.world rfl (perform_leads hp) hagrees)
        fun t ht => perform_cancelled hp (hknown t ht)

/-- Whoever goes on after a wait may have been interrupted, and then by a token that is cancelled. -/
theorem resume_abides {p : Activity S α} {tl : Timeline S B.World}
    (h : Halts view halting Q p known (view tl.world))
    (hknown : ∀ t ∈ known, tl.isCancelled t = true) :
    ∃ more, (∀ t ∈ more, (resume B p tl).2.isCancelled t = true) ∧
      Halts view halting Q (resume B p tl).1 more (view (resume B p tl).2.world) := by
  cases p with
  | done a => exact ⟨known, hknown, h⟩
  | ask r ws duties next stop =>
    simp only [resume]
    split
    · rename_i t ht
      have hmore : ∀ u ∈ t :: known, tl.isCancelled u = true := by
        intro u hu
        rcases List.mem_cons.mp hu with rfl | hu
        · exact List.find?_some ht
        · exact hknown u hu
      exact ⟨t :: known, fun u hu => advance_cancelled _ (hmore u hu),
        advance_abides ((h.1.2 h.2).2 t _) hmore⟩
    · exact ⟨known, fun u hu => advance_cancelled _ (hknown u hu), advance_abides h.1 hknown⟩

end Abides

/-! ### What a run comes to -/

section Run

variable {permits : Request S → Prop} {mild : S.Query → Prop} {view : B.World → V} {halting : V → Prop}
  {Q : α → List Token → V → Prop} {tl : Timeline S B.World}

/-- What every turn of a run keeps. -/
structure Run.Abides (permits : Request S → Prop) (mild : S.Query → Prop) (view : B.World → V)
    (halting : V → Prop) (Q : α → List Token → V → Prop) (run : Run S B.World α) : Prop where
  background : run.timeline.Tame permits mild
  asks : Asks permits run.main
  main : ∃ known, (∀ t ∈ known, run.timeline.isCancelled t = true) ∧
    Halts view halting Q run.main known (view run.timeline.world)

theorem Run.Abides.step (hB : Tames B permits mild)
    (hview : ∀ v, KeptBy B mild fun w => view w = v) {run next : Run S B.World α}
    (h : run.Abides permits mild view halting Q) (hstep : run.step B = some next) :
    next.Abides permits mild view halting Q := by
  obtain ⟨known, hknown, hmain⟩ := h.main
  unfold Run.step at hstep
  split at hstep
  · rename_i id rest hready
    obtain rfl := Option.some.inj hstep
    have hback : Timeline.Tame permits mild (B := B) { run.timeline with ready := rest } := h.background
    obtain ⟨htame, hsame⟩ := runTask_tame hB (hview (view run.timeline.world)) hback rfl id
    refine ⟨htame, h.asks, known, fun t ht => runTask_cancelled id (hknown t ht), ?_⟩
    rw [hsame]
    exact hmain
  · split at hstep
    · exact absurd hstep nofun
    · split at hstep
      · obtain rfl := Option.some.inj hstep
        exact ⟨resume_background hB h.asks h.background, resume_asks h.asks, resume_abides hmain hknown⟩
      · split at hstep
        · exact absurd hstep nofun
        · split at hstep
          · obtain rfl := Option.some.inj hstep
            exact ⟨h.background, h.asks, known, hknown, hmain⟩
          · exact absurd hstep nofun

theorem Run.Abides.finish (hB : Tames B permits mild)
    (hview : ∀ v, KeptBy B mild fun w => view w = v) (budget : Nat) {run : Run S B.World α}
    (h : run.Abides permits mild view halting Q) :
    (run.finish B budget).Abides permits mild view halting Q := by
  induction budget generalizing run with
  | zero => exact h
  | succ budget ih =>
    unfold Run.finish
    split
    · rename_i next hstep
      exact ih (h.step hB hview hstep)
    · exact h

/-- What an abiding activity comes to: it ends as it should, with tokens known to be cancelled, or is given
up where it has to wait. -/
def ComesTo (halting : V → Prop) (Q : α → List Token → V → Prop) (outcome : Option α) (v : V) : Prop :=
  match outcome with
  | some a => ∃ known, Q a known v
  | none => halting v

/-- So does one that was run, and the view is still so when the background has settled. -/
theorem run_abides (hB : Tames B permits mild)
    (hview : ∀ v, KeptBy B mild fun w => view w = v) {p : Activity S α} (ht : tl.Tame permits mild)
    (hasks : Asks permits p) (hp : Abides view halting Q p [] (view tl.world)) {budget : Nat}
    {outcome : Option α} {after : Timeline S B.World}
    (hrun : Timeline.run B budget p tl = (outcome, after)) :
    ComesTo halting Q outcome (view after.world) := by
  have hstart : (Run.start B p tl none).Abides permits mild view halting Q :=
    ⟨advance_background hB hasks ht, advance_asks hasks, [], nofun, advance_abides hp nofun⟩
  have hlast := hstart.finish hB hview budget
  unfold Timeline.run at hrun
  revert hrun hlast
  generalize Run.finish B budget (Run.start B p tl none) = last
  obtain ⟨main, tl', limit⟩ := last
  intro hrun hlast
  obtain ⟨known, -, hmain⟩ := hlast.main
  cases main with
  | done a =>
    obtain ⟨rfl, rfl⟩ := Prod.mk.inj hrun
    refine ⟨known, ?_⟩
    rw [settle_steady hB (hview (view tl'.world)) hlast.background rfl budget]
    exact hmain.1
  | ask r ws duties next stop =>
    obtain ⟨rfl, rfl⟩ := Prod.mk.inj hrun
    have hdropped := drop_background hB hlast.asks hlast.background
    show halting (view (Timeline.settle B budget _).world)
    rw [settle_steady hB (hview (view tl'.world)) hdropped (by rw [drop_world]) budget]
    exact (hmain.1.2 hmain.2).1

end Run

end Wayfind.Activity
