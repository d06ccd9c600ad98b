/-
What the answers to questions oblige to, and what they allow.

The answer to a question may bring something that a later question has to settle: a handle that was made
has to be disposed.  `Dues` say what, and an activity `Clears` them when it ends with no more of them than
it says.  Conversely a question may need what only an earlier answer grants: a command may name no
reference but of a handle that was looked at.  `Grants` say what, and an activity `Heeds` them when it
needs nothing else.

Both are protocols, read off an activity request by request.  They say what they mean of its walks, in
whatever worlds it finds itself (`Clears.owing_subset`, `Heeds.granted`).
-/
import Mathlib.Data.Set.Basic
import Wayfind.Proofs.Activity.Protocol
import Wayfind.Proofs.Activity.Walk

namespace Wayfind.Activity

open PageSide (Action)

variable {S : Signature} {B : Backend S} {α β X : Type}

/-! ### Dues -/

/-- What has to be settled. -/
structure Dues (S : Signature) (Due : Type) where
  /-- What is due when a question has been answered. -/
  brings : (q : S.Query) → S.Answer q → Set Due
  /-- What a question settles. -/
  settles : S.Query → Set Due

/-- What is owed after a question, when so much was owed before. -/
def Dues.later (D : Dues S X) (owed : Set X) (q : S.Query) (a : S.Answer q) : Set X :=
  owed \ D.settles q ∪ D.brings q a

/-- What is owed after a request. -/
def Dues.after (D : Dues S X) (owed : Set X) : (r : Request S) → r.Answer → Set X
  | .query q, a => D.later owed q a
  | _, _ => owed

/-- What is owed when so much has been asked. -/
def Dues.owing (D : Dues S X) (B : Backend S) (owed : Set X) (record : List (Moment S.Query B.World)) :
    Set X :=
  record.foldl (fun owed m => D.later owed m.query (B.answer m.query m.world).1) owed

/-- Whoever begins the activity with such dues ends it with no more than what is left. -/
def Clears (D : Dues S X) (owed : Set X) (p : Activity S α) (left : α → Set X) : Prop :=
  Follows (fun owed r later => later = D.after owed r) (fun owed a => owed ⊆ left a) owed p

section Clears

variable {D : Dues S X} {owed : Set X} {left : α → Set X} {p : Activity S α}

theorem Dues.after_subset {less : Set X} (hless : less ⊆ owed) (r : Request S) (a : r.Answer) :
    D.after less r a ⊆ D.after owed r a := by
  cases r with
  | query q => exact Set.union_subset_union_left _ (Set.sdiff_subset_sdiff_left hless)
  | _ => exact hless

/-- Dues of others stay as they are, or are settled by the way. -/
theorem Dues.after_union (rest : Set X) (r : Request S) (a : r.Answer) :
    D.after (owed ∪ rest) r a ⊆ D.after owed r a ∪ rest := by
  cases r with
  | query q =>
    rintro x (⟨howed | hrest, hnot⟩ | hbrought)
    · exact Or.inl (Or.inl ⟨howed, hnot⟩)
    · exact Or.inr hrest
    · exact Or.inl (Or.inr hbrought)
  | _ => exact Set.Subset.rfl

section Owing

variable {record first second rest : List (Moment S.Query B.World)} {m : Moment S.Query B.World}

theorem Dues.owing_append : D.owing B owed (first ++ second) = D.owing B (D.owing B owed first) second :=
  List.foldl_append

theorem Dues.settled_or_owing_of_mem {x : X} (hx : x ∈ owed) :
    (∃ m ∈ record, x ∈ D.settles m.query) ∨ x ∈ D.owing B owed record := by
  induction record generalizing owed with
  | nil => exact Or.inr hx
  | cons m rest ih =>
    by_cases hsettles : x ∈ D.settles m.query
    · exact Or.inl ⟨m, List.mem_cons_self, hsettles⟩
    · have hlater : x ∈ D.later owed m.query (B.answer m.query m.world).1 := Or.inl ⟨hx, hsettles⟩
      refine (ih hlater).imp_left ?_
      exact fun ⟨m', hm', hsettled⟩ => ⟨m', List.mem_cons_of_mem m hm', hsettled⟩

/-- What an answer brings is settled later, or owed in the end. -/
theorem Dues.settled_or_owing (hsplit : record = first ++ m :: rest) {x : X}
    (hx : x ∈ D.brings m.query (B.answer m.query m.world).1) :
    (∃ m' ∈ rest, x ∈ D.settles m'.query) ∨ x ∈ D.owing B owed record := by
  rw [hsplit, owing_append]
  have hlater : x ∈ D.later (D.owing B owed first) m.query (B.answer m.query m.world).1 := Or.inr hx
  exact settled_or_owing_of_mem hlater

end Owing

namespace Clears

theorem of_subset {less : Set X} (h : Clears D owed p left) (hless : less ⊆ owed) :
    Clears D less p left := by
  induction p generalizing owed less with
  | done a => exact hless.trans h
  | ask r ws duties next stop ihn ihs =>
    obtain ⟨_, rfl, hnext, hstop⟩ := h
    exact ⟨_, rfl, fun a => ihn a (hnext a) (Dues.after_subset hless r a),
      fun t ht => ihs t ht (hstop t ht) hless⟩

theorem mono {more : α → Set X} (h : Clears D owed p left) (hmore : ∀ a, left a ⊆ more a) :
    Clears D owed p more :=
  Follows.mono h fun _ a hleft => hleft.trans (hmore a)

theorem frame (h : Clears D owed p left) (rest : Set X) :
    Clears D (owed ∪ rest) p fun a => left a ∪ rest := by
  induction p generalizing owed with
  | done a => exact Set.union_subset_union_left rest h
  | ask r ws duties next stop ihn ihs =>
    obtain ⟨_, rfl, hnext, hstop⟩ := h
    exact ⟨_, rfl, fun a => of_subset (ihn a (hnext a)) (Dues.after_union rest r a),
      fun t ht => ihs t ht (hstop t ht)⟩

/-- Whoever owed nothing owes what it did not settle. -/
theorem keep (h : Clears D ∅ p left) (rest : Set X) : Clears D rest p fun a => left a ∪ rest := by
  have hframed := h.frame rest
  rwa [Set.empty_union] at hframed

theorem bind {f : α → Activity S β} {left' : β → Set X} (h : Clears D owed p left)
    (hf : ∀ a, Clears D (left a) (f a) left') : Clears D owed (Activity.bind p f) left' :=
  follows_bind.mpr (Follows.mono h fun _ a hleft => (hf a).of_subset hleft)

theorem protect (h : Clears D owed p left) (duties : List (Duty S)) :
    Clears D owed (Activity.protect duties p) left := (follows_protect duties).mpr h

theorem owing_subset {record : List (Moment S.Query B.World)} {a : α} (h : Clears D owed p left)
    (hends : Ends B p record a) : D.owing B owed record ⊆ left a := by
  obtain ⟨last, hlast, hwalk⟩ : ∃ last, last = .done a ∧ Walk B p record last := ⟨_, rfl, hends⟩
  clear hends
  induction hwalk generalizing owed with
  | stays p =>
    subst hlast
    exact h
  | @asks r _ _ _ _ record _ b w v hleads _ ih =>
    obtain ⟨_, rfl, hnext, -⟩ := h
    cases r with
    | query q =>
      obtain ⟨rfl, -⟩ := hleads
      exact ih (hnext _) hlast
    | _ => exact ih (hnext b) hlast
  | stops t ht _ ih =>
    obtain ⟨_, rfl, -, hstop⟩ := h
    exact ih (hstop t ht) hlast

end Clears

theorem clears_done {a : α} : Clears D owed (.done a) left ↔ owed ⊆ left a := Iff.rfl

theorem clears_perform {r : Request S} :
    Clears D owed (perform r) fun a => D.after owed r a :=
  ⟨_, rfl, fun _ => Set.Subset.rfl, fun _ h => absurd h List.not_mem_nil⟩

/-- Whoever waits without end leaves nothing. -/
theorem clears_never : Clears D owed (Activity.never : Activity S α) left :=
  ⟨_, rfl, nofun, fun _ h => absurd h List.not_mem_nil⟩

/-- Whoever asks nothing that matters is left with what there was. -/
theorem clears_of_asks (hp : Asks (fun r => ∀ owed a, D.after owed r a ⊆ owed) p) :
    Clears D owed p fun _ => owed := by
  suffices h : ∀ less ⊆ owed, Clears D less p fun _ => owed from h owed Set.Subset.rfl
  induction p with
  | done a => exact fun _ hless => hless
  | ask r ws duties next stop ihn ihs =>
    refine fun less hless => ⟨_, rfl, fun a => ihn a (hp.2.1 a) _ ?_, fun t ht => ihs t ht (hp.2.2 t ht) less hless⟩
    exact (hp.1.1 less a).trans hless

end Clears

section Action

variable {P : PageSide} {D : Dues P.signature X} {owed : Set X}

theorem Clears.andThen {a : P.Action α} {f : α → P.Action β} {left : Except Error α → Set X}
    {left' : Except Error β → Set X} (ha : Clears D owed a.outcome left)
    (hok : ∀ v, Clears D (left (.ok v)) (f v).outcome left')
    (herror : ∀ e, left (.error e) ⊆ left' (.error e)) : Clears D owed (a >>= f).outcome left' := by
  rw [outcome_bind]
  refine ha.bind fun r => ?_
  cases r with
  | ok v => exact hok v
  | error e => exact herror e

/-- An action whose failure is looked at. -/
theorem Clears.attempt {a : P.Action α} {f : Except Error α → P.Action β}
    {left : Except Error α → Set X} {left' : Except Error β → Set X}
    (ha : Clears D owed a.outcome left) (hf : ∀ r, Clears D (left r) (f r).outcome left') :
    Clears D owed (a.attempt >>= f).outcome left' := by
  rw [outcome_attempt_bind]
  exact ha.bind hf

theorem clears_lift {p : P.Task α} {f : α → P.Action β} {left : α → Set X}
    {left' : Except Error β → Set X} (hp : Clears D owed p left)
    (hf : ∀ a, Clears D (left a) (f a).outcome left') :
    Clears D owed (Action.outcome (B := P) (ExceptT.lift p >>= f)) left' := by
  rw [outcome_lift_bind]
  exact hp.bind hf

theorem clears_ofExcept {r : Except Error α} {left : Except Error α → Set X} (h : owed ⊆ left r) :
    Clears D owed (Action.ofExcept r : P.Action α).outcome left := by
  rw [outcome_ofExcept]
  exact h

/-- To look at the clock changes nothing. -/
theorem clears_clockThen {f : Nat → P.Action β} {left' : Except Error β → Set X}
    (hf : ∀ now, Clears D owed (f now).outcome left') :
    Clears D owed (Action.outcome (Action.perform .clock >>= f : P.Action β)) left' := by
  have hclock : Clears D owed (perform (S := P.signature) .clock) fun _ => owed := clears_perform
  exact clears_lift hclock hf

/-- To sleep changes nothing. -/
theorem clears_sleepThen {ms : Nat} {f : Unit → P.Action β} {left' : Except Error β → Set X}
    (hf : Clears D owed (f ()).outcome left') : Clears D owed (Action.sleep ms >>= f).outcome left' := by
  have hsleep : Clears D owed (Activity.sleep ms : P.Task Unit) fun _ => owed :=
    clears_perform.bind fun _ => clears_perform
  exact clears_lift hsleep fun _ => hf

section Ask

variable {q : P.Query} {f : P.Answer q → P.Action β} {left' : Except Error β → Set X}

theorem clears_ask (hf : ∀ a, Clears D (D.later owed q a) (f a).outcome left') :
    Clears D owed (Action.query q >>= f).outcome left' := clears_lift clears_perform hf

/-- Nothing is due of the question. -/
def Dues.Ignores (D : Dues S X) (q : S.Query) : Prop := D.settles q = ∅ ∧ ∀ a, D.brings q a = ∅

theorem Dues.Ignores.later {D : Dues S X} {q : S.Query} (h : D.Ignores q) (a : S.Answer q) :
    D.later owed q a = owed := by
  unfold Dues.later
  rw [h.1, h.2 a, Set.sdiff_empty, Set.union_empty]

theorem clears_ask_ignored (hq : D.Ignores q) (hf : ∀ a, Clears D owed (f a).outcome left') :
    Clears D owed (Action.query q >>= f).outcome left' := clears_ask fun a => (hq.later a).symm ▸ hf a

end Ask

theorem clears_assoc {γ : Type} {a : P.Action γ} {g : γ → P.Action α} {f : α → P.Action β}
    {left' : Except Error β → Set X} (h : Clears D owed (a >>= fun c => g c >>= f).outcome left') :
    Clears D owed ((a >>= g) >>= f).outcome left' := by
  rwa [LawfulMonad.bind_assoc]

theorem clears_pure {v : α} {left : Except Error α → Set X} (h : owed ⊆ left (.ok v)) :
    Clears D owed (Action.outcome (pure v : P.Action α)) left := h

theorem clears_throw {e : Error} {left : Except Error α → Set X} (h : owed ⊆ left (.error e)) :
    Clears D owed (Action.outcome (MonadExcept.throw e : P.Action α)) left := h

/-- The action leaves nothing. -/
abbrev Neat (D : Dues P.signature X) (a : P.Action α) : Prop := Clears D ∅ a.outcome fun _ => ∅

namespace Neat

variable {a : P.Action α} {f : α → P.Action β} {left' : Except Error β → Set X}

theorem keep (h : Neat D a) (rest : Set X) : Clears D rest a.outcome fun _ => rest := by
  have hkept := Clears.keep h rest
  rwa [Set.empty_union] at hkept

/-- What follows an action that leaves nothing. -/
theorem andThen (h : Neat D a) (hf : ∀ v, Clears D owed (f v).outcome left')
    (herror : ∀ e, owed ⊆ left' (.error e)) : Clears D owed (a >>= f).outcome left' :=
  Clears.andThen (h.keep owed) hf herror

theorem bind (h : Neat D a) (hf : ∀ v, Clears D ∅ (f v).outcome left') :
    Clears D ∅ (a >>= f).outcome left' := h.andThen hf fun _ => Set.empty_subset _

end Neat

theorem neat_pure (v : α) : Neat D (pure v : P.Action α) := Set.Subset.rfl

theorem neat_throw (e : Error) : Neat D (MonadExcept.throw e : P.Action α) := Set.Subset.rfl

theorem neat_forM {f : α → P.Action PUnit} (hf : ∀ v, Neat D (f v)) (vs : List α) : Neat D (vs.forM f) := by
  induction vs with
  | nil => exact neat_pure ()
  | cons v rest ih => exact (hf v).bind fun _ => ih

theorem neat_mapM {f : α → P.Action β} (hf : ∀ v, Neat D (f v)) (vs : List α) : Neat D (vs.mapM f) := by
  induction vs with
  | nil => exact neat_pure []
  | cons v rest ih =>
    rw [List.mapM_cons]
    exact (hf v).bind fun w => ih.bind fun ws => neat_pure (w :: ws)

end Action

/-! ### Grants -/

/-- What has to be granted before it is needed. -/
structure Grants (S : Signature) (Thing : Type) where
  /-- What a question needs. -/
  needs : S.Query → Set Thing
  /-- What the answer to a question grants. -/
  grants : (q : S.Query) → S.Answer q → Set Thing

/-- What a request needs. -/
def Grants.needed (G : Grants S X) : Request S → Set X
  | .query q => G.needs q
  | _ => ∅

/-- What is allowed after a request, when so much was allowed before. -/
def Grants.after (G : Grants S X) (allowed : Set X) : (r : Request S) → r.Answer → Set X
  | .query q, a => allowed ∪ G.grants q a
  | _, _ => allowed

/-- With so much allowed from before the activity needs nothing that is not allowed, and so much it is
known to be allowed when it ends. -/
def Heeds (G : Grants S X) (allowed : Set X) (p : Activity S α) (known : α → Set X) : Prop :=
  Follows (fun allowed r later => G.needed r ⊆ allowed ∧ later = G.after allowed r)
    (fun allowed a => known a ⊆ allowed) allowed p

section Heeds

variable {G : Grants S X} {allowed : Set X} {known : α → Set X} {p q : Activity S α}

theorem Grants.subset_after (r : Request S) (a : r.Answer) : allowed ⊆ G.after allowed r a := by
  cases r with
  | query q => exact Set.subset_union_left
  | _ => exact Set.Subset.rfl

theorem Grants.after_subset {more : Set X} (hmore : allowed ⊆ more) (r : Request S) (a : r.Answer) :
    G.after allowed r a ⊆ G.after more r a := by
  cases r with
  | query q => exact Set.union_subset_union_left _ hmore
  | _ => exact hmore

namespace Heeds

theorem mono {less : α → Set X} (h : Heeds G allowed p known) (hless : ∀ a, less a ⊆ known a) :
    Heeds G allowed p less :=
  Follows.mono h fun _ a hknown => (hless a).trans hknown

/-- Nothing that is allowed is lost. -/
theorem of_superset {more : Set X} (h : Heeds G allowed p known) (hmore : allowed ⊆ more) :
    Heeds G more p fun a => known a ∪ more := by
  induction p generalizing allowed more with
  | done a => exact Set.union_subset (Set.Subset.trans h hmore) Set.Subset.rfl
  | ask r ws duties next stop ihn ihs =>
    obtain ⟨_, ⟨hneeds, rfl⟩, hnext, hstop⟩ := h
    refine ⟨_, ⟨hneeds.trans hmore, rfl⟩, fun a => ?_, fun t ht => ihs t ht (hstop t ht) hmore⟩
    exact mono (ihn a (hnext a) (Grants.after_subset hmore r a)) fun _ =>
      Set.union_subset_union_right _ (Grants.subset_after r a)

theorem bind {f : α → Activity S β} {known' : β → Set X} (h : Heeds G allowed p known)
    (hf : ∀ a, Heeds G (known a) (f a) known') : Heeds G allowed (Activity.bind p f) known' := by
  refine follows_bind.mpr (Follows.mono h fun st a hknown => ?_)
  exact mono ((hf a).of_superset hknown) fun _ => Set.subset_union_left

/-- Whatever is needed on a walk was granted before, however far it has come. -/
theorem granted {record : List (Moment S.Query B.World)}
    (h : Heeds G allowed p known) (hwalk : Walk B p record q)
    {before : List (Moment S.Query B.World)} {m : Moment S.Query B.World}
    {rest : List (Moment S.Query B.World)} (hsplit : record = before ++ m :: rest) :
    ∀ x ∈ G.needs m.query,
      x ∈ allowed ∨ ∃ m' ∈ before, x ∈ G.grants m'.query (B.answer m'.query m'.world).1 := by
  induction hwalk generalizing allowed before with
  | stays p => exact absurd hsplit.symm (List.append_ne_nil_of_right_ne_nil _ (List.cons_ne_nil m rest))
  | @asks r _ _ _ _ record _ b w v hleads _ ih =>
    obtain ⟨_, ⟨hneeds, rfl⟩, hnext, -⟩ := h
    cases r with
    | query q =>
      obtain ⟨rfl, -⟩ := hleads
      intro x hx
      cases before with
      | nil =>
        obtain ⟨rfl, rfl⟩ := List.cons.inj hsplit
        exact Or.inl (hneeds hx)
      | cons first before =>
        obtain ⟨rfl, -⟩ := List.cons.inj hsplit
        rcases ih (hnext _) (List.cons.inj hsplit).2 x hx with (hgranted | hnow) | ⟨m', hm', hearlier⟩
        · exact Or.inl hgranted
        · exact Or.inr ⟨⟨w, q⟩, List.mem_cons_self, hnow⟩
        · exact Or.inr ⟨m', List.mem_cons_of_mem _ hm', hearlier⟩
    | _ => exact ih (hnext b) hsplit
  | stops t ht _ ih =>
    obtain ⟨_, -, -, hstop⟩ := h
    exact ih (hstop t ht) hsplit

end Heeds

/-- Whoever asks nothing that needs to be granted. -/
theorem heeds_of_asks (hp : Asks (fun r => G.needed r = ∅) p) : Heeds G allowed p fun _ => allowed := by
  induction p generalizing allowed with
  | done a => exact Set.Subset.rfl
  | ask r ws duties next stop ihn ihs =>
    refine ⟨_, ⟨hp.1.1.trans_subset (Set.empty_subset _), rfl⟩, fun a => ?_, fun t ht => ihs t ht (hp.2.2 t ht)⟩
    exact Heeds.mono (ihn a (hp.2.1 a)) fun _ => Grants.subset_after r a

theorem heeds_perform {r : Request S} (hneeds : G.needed r ⊆ allowed) :
    Heeds G allowed (perform r) fun a => G.after allowed r a :=
  ⟨_, ⟨hneeds, rfl⟩, fun _ => Set.Subset.rfl, fun _ h => absurd h List.not_mem_nil⟩

end Heeds

section Action

variable {P : PageSide} {G : Grants P.signature X} {allowed : Set X} {a : P.Action α} {known : α → Set X}
  {f : α → P.Action β} {known' : β → Set X}

/-- What an action is allowed when it has ended: what was allowed before, and so much more if it has
succeeded. -/
def allowedBy (allowed : Set X) (known : α → Set X) : Except Error α → Set X
  | .ok v => known v ∪ allowed
  | .error _ => allowed

/-- The action needs nothing that is not allowed; when it ends with a value so much more is allowed. -/
abbrev Minds (G : Grants P.signature X) (allowed : Set X) (a : P.Action α) (known : α → Set X) : Prop :=
  Heeds G allowed a.outcome (allowedBy allowed known)

namespace Minds

theorem of_superset {more : Set X} (h : Minds G allowed a known) (hmore : allowed ⊆ more) : Minds G more a known :=
  (Heeds.of_superset h hmore).mono fun r => by
    cases r with
    | ok v => exact Set.union_subset_union_left _ Set.subset_union_left
    | error e => exact Set.subset_union_right

theorem mono {less : α → Set X} (h : Minds G allowed a known) (hless : ∀ v, less v ⊆ known v) :
    Minds G allowed a less :=
  Heeds.mono h fun r => by
    cases r with
    | ok v => exact Set.union_subset_union_left _ (hless v)
    | error e => exact Set.Subset.rfl

/-- What was allowed to begin with may be forgotten. -/
theorem lower {less : Set X} (h : Minds G allowed a known) (hless : less ⊆ allowed) :
    Heeds G allowed a.outcome (allowedBy less known) :=
  Heeds.mono h fun r => by
    cases r with
    | ok v => exact Set.union_subset_union_right _ hless
    | error e => exact hless

theorem bind (h : Minds G allowed a known) (hf : ∀ v, Minds G (known v ∪ allowed) (f v) known') :
    Minds G allowed (a >>= f) known' := by
  unfold Minds
  rw [outcome_bind]
  refine Heeds.bind h fun r => ?_
  cases r with
  | ok v => exact (hf v).lower Set.subset_union_right
  | error e => exact Set.Subset.rfl

/-- An action whose failure is looked at. -/
theorem attempt {f : Except Error α → P.Action β} (h : Minds G allowed a known)
    (hok : ∀ v, Minds G (known v ∪ allowed) (f (.ok v)) known')
    (herror : ∀ e, Minds G allowed (f (.error e)) known') :
    Minds G allowed (a.attempt >>= f) known' := by
  unfold Minds
  rw [outcome_attempt_bind]
  refine Heeds.bind h fun r => ?_
  cases r with
  | ok v => exact (hok v).lower Set.subset_union_right
  | error e => exact herror e

/-- What follows an action of which nothing has to be known. -/
theorem next (h : Minds G allowed a fun _ => ∅) (hf : ∀ v, Minds G allowed (f v) known') :
    Minds G allowed (a >>= f) known' := h.bind fun v => (hf v).of_superset (Set.empty_union allowed).superset

end Minds

theorem minds_ofExcept {r : Except Error α} : Minds G allowed (Action.ofExcept r : P.Action α) fun _ => ∅ := by
  unfold Minds
  rw [outcome_ofExcept]
  cases r with
  | ok v => exact (Set.empty_union allowed).subset
  | error e => exact Set.Subset.rfl

theorem minds_pure {v : α} (h : known v ⊆ allowed) : Minds G allowed (pure v : P.Action α) known :=
  Set.union_subset h Set.Subset.rfl

theorem minds_throw (e : Error) : Minds G allowed (MonadExcept.throw e : P.Action α) known := Set.Subset.rfl

theorem minds_of_asks (h : Asks (fun r => G.needed r = ∅) a.outcome) : Minds G allowed a fun _ => ∅ :=
  Heeds.mono (heeds_of_asks h) fun r => by
    cases r with
    | ok v => exact (Set.empty_union allowed).subset
    | error e => exact Set.Subset.rfl

theorem minds_ask {q : P.Query} {f : P.Answer q → P.Action β} (hneeds : G.needs q ⊆ allowed)
    (hf : ∀ v, Minds G (G.grants q v ∪ allowed) (f v) known') :
    Minds G allowed (Action.query q >>= f) known' := by
  unfold Minds
  rw [show Action.outcome (Action.query q >>= f) = _ from
    outcome_lift_bind (perform (S := P.signature) (.query q)) f]
  refine (heeds_perform (S := P.signature) (r := .query q) hneeds).bind fun v => ?_
  exact ((hf v).of_superset (Set.union_comm _ _).subset).lower Set.subset_union_left

theorem minds_forM {f : α → P.Action PUnit} (hf : ∀ v, Minds G allowed (f v) fun _ => ∅) (vs : List α) :
    Minds G allowed (vs.forM f) fun _ => ∅ := by
  induction vs with
  | nil => exact minds_pure (Set.empty_subset _)
  | cons v rest ih => exact (hf v).next fun _ => ih

/-- Of a list of values so much is known as of each of them. -/
theorem minds_mapM {f : α → P.Action β} (hf : ∀ v, Minds G allowed (f v) known') (vs : List α) :
    Minds G allowed (vs.mapM f) fun ws => {x | ∃ w ∈ ws, x ∈ known' w} := by
  induction vs generalizing allowed with
  | nil => exact minds_pure fun x ⟨w, hw, _⟩ => absurd hw List.not_mem_nil
  | cons v rest ih =>
    rw [List.mapM_cons]
    refine (hf v).bind fun w => ?_
    refine (ih fun v => (hf v).of_superset Set.subset_union_right).bind fun ws => minds_pure ?_
    rintro x ⟨w', hw', hx⟩
    rcases List.mem_cons.mp hw' with rfl | hrest
    · exact Or.inr (Or.inl hx)
    · exact Or.inl ⟨w', hrest, hx⟩

end Action

end Wayfind.Activity
