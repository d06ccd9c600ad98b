/-
What an activity asks, in whatever worlds it finds itself.

While an activity goes on, anybody else may change the world between two of its requests.  A
`Walk` says no more than what holds all the same: its own questions, one after another, each answered
as the world answers it that it then finds.  A walk through an activity is a walk through each of its
parts, so what the walks of an action record is read off the action, part by part.
-/
import Wayfind.Proofs.Activity.Recording
import Wayfind.Proofs.Activity.Steady
import Wayfind.Proofs.Page.Outcome

namespace Wayfind.Activity

variable {S : Signature} {B : Backend S} {α β : Type}

/-- What a request asks the world. -/
def Request.moments (w : B.World) : Request S → List (Moment S.Query B.World)
  | .query q => [⟨w, q⟩]
  | _ => []

/-- The activity asks this of the worlds it finds, and goes on as another one. -/
inductive Walk (B : Backend S) :
    Activity S α → List (Moment S.Query B.World) → Activity S α → Prop
  | stays (p : Activity S α) : Walk B p [] p
  | asks {r : Request S} {watched : List Token} {duties : List (Duty S)}
      {next : r.Answer → Activity S α} {stop : (t : Token) → t ∈ watched → Activity S α}
      {record : List (Moment S.Query B.World)} {q : Activity S α} {a : r.Answer} {w v : B.World}
      (hleads : r.Leads B w a v) (h : Walk B (next a) record q) :
      Walk B (.ask r watched duties next stop) (r.moments w ++ record) q
  | stops {r : Request S} {watched : List Token} {duties : List (Duty S)}
      {next : r.Answer → Activity S α} {stop : (t : Token) → t ∈ watched → Activity S α}
      {record : List (Moment S.Query B.World)} {q : Activity S α} (t : Token) (ht : t ∈ watched)
      (h : Walk B (stop t ht) record q) :
      Walk B (.ask r watched duties next stop) record q

namespace Walk

variable {p q : Activity S α} {record more : List (Moment S.Query B.World)}

theorem trans {p' : Activity S α} (h : Walk B p record q) (h' : Walk B q more p') :
    Walk B p (record ++ more) p' := by
  induction h with
  | stays p => exact h'
  | asks hleads _ ih =>
    rw [List.append_assoc]
    exact .asks hleads (ih h')
  | stops t ht _ ih => exact .stops t ht (ih h')

/-- What an activity asks, it asks with others behind it, too. -/
theorem bind (h : Walk B p record q) (f : α → Activity S β) :
    Walk B (Activity.bind p f) record (Activity.bind q f) := by
  induction h with
  | stays p => exact .stays _
  | asks hleads _ ih => exact .asks hleads ih
  | stops t ht _ ih => exact .stops t ht ih

/-- What it goes on as asks nothing else. -/
theorem asks_of_asks {P : Request S → Prop} (h : Walk B p record q) (hp : Asks P p) : Asks P q := by
  induction h with
  | stays p => exact hp
  | @asks _ _ _ _ _ _ _ a _ _ _ _ ih => exact ih (hp.2.1 a)
  | stops t ht _ ih => exact ih (hp.2.2 t ht)

theorem asked_of_asks {P : Request S → Prop} (h : Walk B p record q) (hp : Asks P p) :
    ∀ m ∈ record, P (.query m.query) := by
  induction h with
  | stays p => exact fun m hm => absurd hm List.not_mem_nil
  | @asks r _ _ _ _ record _ a w _ _ _ ih =>
    intro m hm
    rcases List.mem_append.mp hm with hfirst | hrest
    · cases r with
      | query q =>
        rw [List.mem_singleton.mp hfirst]
        exact hp.1.1
      | _ => exact absurd hfirst List.not_mem_nil
    · exact ih (hp.2.1 a) m hrest
  | stops t ht _ ih => exact ih (hp.2.2 t ht)

end Walk

/-- The activity asks this of the worlds it finds, and ends so. -/
abbrev Ends (B : Backend S) (p : Activity S α) (record : List (Moment S.Query B.World)) (a : α) : Prop :=
  Walk B p record (.done a)

theorem ends_done {a b : α} {record : List (Moment S.Query B.World)}
    (h : Ends B (.done a) record b) : record = [] ∧ a = b := by
  cases h
  exact ⟨rfl, rfl⟩

theorem walk_done {a : α} {record : List (Moment S.Query B.World)} {q : Activity S α}
    (h : Walk B (.done a) record q) : record = [] ∧ q = .done a := by
  cases h
  exact ⟨rfl, rfl⟩

/-- Who waits for good does not end. -/
theorem not_ends_never {a : α} {record : List (Moment S.Query B.World)} : ¬ Ends B (never : Activity S α) record a := by
  intro h
  cases h with
  | @asks _ _ _ _ _ _ _ a _ _ _ _ => exact Empty.elim a
  | stops t ht _ => exact absurd ht List.not_mem_nil

/-- What follows an activity asks what is left. -/
theorem ends_bind {p : Activity S α} {f : α → Activity S β} {record : List (Moment S.Query B.World)}
    {b : β} (h : Ends B (bind p f) record b) :
    ∃ first second a, record = first ++ second ∧ Ends B p first a ∧ Ends B (f a) second b := by
  induction p generalizing record with
  | done a => exact ⟨[], record, a, rfl, .stays _, h⟩
  | ask r watched duties next stop ihn ihs =>
    cases h with
    | asks hleads h =>
      obtain ⟨first, second, a, rfl, hfirst, hsecond⟩ := ihn _ h
      exact ⟨_, second, a, (List.append_assoc _ _ _).symm, .asks hleads hfirst, hsecond⟩
    | stops t ht h =>
      obtain ⟨first, second, a, rfl, hfirst, hsecond⟩ := ihs t ht h
      exact ⟨first, second, a, rfl, .stops t ht hfirst, hsecond⟩

/-- What follows an activity has not begun, or asks what is left. -/
theorem walk_bind {p : Activity S α} {f : α → Activity S β} {record : List (Moment S.Query B.World)}
    {q : Activity S β} (h : Walk B (bind p f) record q) :
    (∃ p', Walk B p record p' ∧ (∀ a, p' ≠ .done a) ∧ q = bind p' f) ∨
      ∃ first second a, record = first ++ second ∧ Ends B p first a ∧ Walk B (f a) second q := by
  induction p generalizing record with
  | done a => exact Or.inr ⟨[], record, a, rfl, .stays _, h⟩
  | ask r watched duties next stop ihn ihs =>
    cases h with
    | stays _ => exact Or.inl ⟨_, .stays _, nofun, rfl⟩
    | asks hleads h =>
      rcases ihn _ h with ⟨p', hwalk, hlive, rfl⟩ | ⟨first, second, a, rfl, hfirst, hsecond⟩
      · exact Or.inl ⟨p', .asks hleads hwalk, hlive, rfl⟩
      · exact Or.inr ⟨_, second, a, (List.append_assoc _ _ _).symm, .asks hleads hfirst, hsecond⟩
    | stops t ht h =>
      rcases ihs t ht h with ⟨p', hwalk, hlive, rfl⟩ | ⟨first, second, a, rfl, hfirst, hsecond⟩
      · exact Or.inl ⟨p', .stops t ht hwalk, hlive, rfl⟩
      · exact Or.inr ⟨first, second, a, rfl, .stops t ht hfirst, hsecond⟩

/-- What follows has not begun, and so nothing has ended yet. -/
theorem bind_ne_done {p : Activity S α} {f : α → Activity S β} (h : ∀ a, p ≠ .done a) (b : β) :
    bind p f ≠ .done b := by
  cases p with
  | done a => exact absurd rfl (h a)
  | ask r watched duties next stop => exact nofun

theorem ends_perform {r : Request S} {record : List (Moment S.Query B.World)} {a : r.Answer}
    (h : Ends B (Activity.perform r) record a) : ∃ w v, record = r.moments w ∧ r.Leads B w a v := by
  cases h with
  | @asks _ _ _ _ _ _ _ a' w v hleads h =>
    obtain ⟨rfl, rfl⟩ := ends_done h
    exact ⟨w, v, List.append_nil _, hleads⟩
  | stops t ht h => exact absurd ht List.not_mem_nil

theorem ends_query {q : S.Query} {record : List (Moment S.Query B.World)} {a : S.Answer q}
    (h : Ends B (Activity.query q) record a) : ∃ w, record = [⟨w, q⟩] ∧ a = (B.answer q w).1 := by
  obtain ⟨w, v, hrecord, hleads⟩ := ends_perform h
  exact ⟨w, hrecord, hleads.1⟩

/-! ### The same, the other way round -/

theorem ends_done_iff {a b : α} {record : List (Moment S.Query B.World)} :
    Ends B (.done a) record b ↔ record = [] ∧ a = b :=
  ⟨ends_done, by rintro ⟨rfl, rfl⟩; exact .stays _⟩

theorem ends_bind_iff {p : Activity S α} {f : α → Activity S β} {record : List (Moment S.Query B.World)}
    {b : β} : Ends B (bind p f) record b ↔
      ∃ first second a, record = first ++ second ∧ Ends B p first a ∧ Ends B (f a) second b := by
  refine ⟨ends_bind, ?_⟩
  rintro ⟨first, second, a, rfl, hfirst, hsecond⟩
  exact (hfirst.bind f).trans hsecond

theorem ends_perform_iff {r : Request S} {record : List (Moment S.Query B.World)} {a : r.Answer} :
    Ends B (Activity.perform r) record a ↔ ∃ w v, record = r.moments w ∧ r.Leads B w a v := by
  refine ⟨ends_perform, ?_⟩
  rintro ⟨w, v, rfl, hleads⟩
  rw [← List.append_nil (r.moments w)]
  exact .asks hleads (.stays _)

theorem ends_query_iff {q : S.Query} {record : List (Moment S.Query B.World)} {a : S.Answer q} :
    Ends B (Activity.query q) record a ↔ ∃ w, record = [⟨w, q⟩] ∧ a = (B.answer q w).1 := by
  refine ⟨ends_query, ?_⟩
  rintro ⟨w, rfl, rfl⟩
  exact ends_perform_iff.2 ⟨w, _, rfl, rfl, rfl⟩

/-! ### Actions -/

section Action

open PageSide (Action)

variable {P : PageSide} {K : Backend P.signature} {record : List (Moment P.Query K.World)}

/-- An action followed by another has failed at once, or it has succeeded and the other has ended. -/
theorem ends_andThen {a : P.Action α} {f : α → P.Action β} {r : Except Error β}
    (h : Ends K (a >>= f).outcome record r) :
    (∃ e, r = .error e ∧ Ends K a.outcome record (.error e)) ∨
      ∃ first second v, record = first ++ second ∧ Ends K a.outcome first (.ok v) ∧
        Ends K (f v).outcome second r := by
  rw [outcome_bind] at h
  obtain ⟨first, second, o, rfl, hfirst, hsecond⟩ := ends_bind h
  cases o with
  | ok v => exact Or.inr ⟨first, second, v, rfl, hfirst, hsecond⟩
  | error e =>
    obtain ⟨rfl, rfl⟩ := ends_done hsecond
    refine Or.inl ⟨e, rfl, ?_⟩
    rwa [List.append_nil]

/-- An action followed by another goes on, or has failed, or the other goes on. -/
theorem walk_andThen {a : P.Action α} {f : α → P.Action β} {q : Activity P.signature (Except Error β)}
    (h : Walk K (a >>= f).outcome record q) :
    (∃ p, Walk K a.outcome record p ∧ (∀ o, p ≠ .done o) ∧ ∀ o, q ≠ .done o) ∨
      (∃ e, Ends K a.outcome record (.error e) ∧ q = .done (.error e)) ∨
      ∃ first second v, record = first ++ second ∧ Ends K a.outcome first (.ok v) ∧
        Walk K (f v).outcome second q := by
  rw [outcome_bind] at h
  rcases walk_bind h with ⟨p, hwalk, hlive, rfl⟩ | ⟨first, second, o, rfl, hfirst, hsecond⟩
  · exact Or.inl ⟨p, hwalk, hlive, bind_ne_done hlive⟩
  · cases o with
    | ok v => exact Or.inr (Or.inr ⟨first, second, v, rfl, hfirst, hsecond⟩)
    | error e =>
      obtain ⟨rfl, rfl⟩ := walk_done hsecond
      refine Or.inr (Or.inl ⟨e, ?_, rfl⟩)
      rwa [List.append_nil]

/-- An action whose outcome another looks at goes on, or the other does. -/
theorem walk_attempt {a : P.Action α} {f : Except Error α → P.Action β}
    {q : Activity P.signature (Except Error β)} (h : Walk K (a.attempt >>= f).outcome record q) :
    (∃ p, Walk K a.outcome record p ∧ (∀ o, p ≠ .done o) ∧ ∀ o, q ≠ .done o) ∨
      ∃ first second o, record = first ++ second ∧ Ends K a.outcome first o ∧
        Walk K (f o).outcome second q := by
  rw [outcome_attempt_bind] at h
  rcases walk_bind h with ⟨p, hwalk, hlive, rfl⟩ | hsecond
  · exact Or.inl ⟨p, hwalk, hlive, bind_ne_done hlive⟩
  · exact Or.inr hsecond

theorem walk_ofExcept {o : Except Error α} {q : Activity P.signature (Except Error α)}
    (h : Walk K (Action.ofExcept o : P.Action α).outcome record q) : record = [] ∧ q = .done o := by
  rw [outcome_ofExcept] at h
  exact walk_done h

theorem ends_lift {p : P.Task α} {f : α → P.Action β} {r : Except Error β}
    (h : Ends K (Action.outcome (B := P) (ExceptT.lift p >>= f)) record r) :
    ∃ first second v, record = first ++ second ∧ Ends K p first v ∧ Ends K (f v).outcome second r :=
  ends_bind (outcome_lift_bind p f ▸ h)

theorem ends_attempt {a : P.Action α} {f : Except Error α → P.Action β} {r : Except Error β}
    (h : Ends K (a.attempt >>= f).outcome record r) :
    ∃ first second o, record = first ++ second ∧ Ends K a.outcome first o ∧
      Ends K (f o).outcome second r :=
  ends_lift h

/-- An action that begins with a question. -/
theorem ends_ask {q : P.Query} {f : P.Answer q → P.Action β} {r : Except Error β}
    (h : Ends K (Action.query q >>= f).outcome record r) :
    ∃ w rest, record = ⟨w, q⟩ :: rest ∧ Ends K (f (K.answer q w).1).outcome rest r := by
  obtain ⟨first, rest, a, rfl, hfirst, hrest⟩ := ends_lift h
  obtain ⟨w, rfl, rfl⟩ := ends_query hfirst
  exact ⟨w, rest, rfl, hrest⟩

theorem ends_ofExcept {o r : Except Error α}
    (h : Ends K (Action.ofExcept o : P.Action α).outcome record r) : record = [] ∧ o = r := by
  rw [outcome_ofExcept] at h
  exact ends_done h

/-- An action that begins with a question asks it first. -/
theorem walk_ask {q : P.Query} {f : P.Answer q → P.Action β} {p : Activity P.signature (Except Error β)}
    (h : Walk K (Action.query q >>= f).outcome record p) :
    (record = [] ∧ ∀ o, p ≠ .done o) ∨
      ∃ w rest, record = ⟨w, q⟩ :: rest ∧ Walk K (f (K.answer q w).1).outcome rest p := by
  have hsame : (Action.query q >>= f).outcome = Activity.bind (Activity.query (S := P.signature) q) fun a =>
      (f a).outcome := outcome_lift_bind (B := P) (Activity.query (S := P.signature) q) f
  rw [hsame] at h
  cases h with
  | stays _ => exact Or.inl ⟨rfl, nofun⟩
  | @asks _ _ _ _ _ _ _ a w v hleads h =>
    obtain ⟨rfl, rfl⟩ := hleads
    exact Or.inr ⟨w, _, rfl, h⟩
  | stops t ht h => exact absurd ht List.not_mem_nil

/-- To sleep asks the world nothing. -/
theorem ends_sleep {ms : Nat} {u : Unit} (h : Ends K (Activity.sleep ms) record u) : record = [] := by
  obtain ⟨first, second, now, rfl, hclock, hsleep⟩ := ends_bind h
  obtain ⟨-, -, rfl, -⟩ := ends_perform hclock
  obtain ⟨-, -, rfl, -⟩ := ends_perform hsleep
  rfl

theorem ends_andThen_iff {a : P.Action α} {f : α → P.Action β} {r : Except Error β} :
    Ends K (a >>= f).outcome record r ↔
      (∃ e, r = .error e ∧ Ends K a.outcome record (.error e)) ∨
        ∃ first second v, record = first ++ second ∧ Ends K a.outcome first (.ok v) ∧
          Ends K (f v).outcome second r := by
  refine ⟨ends_andThen, ?_⟩
  rw [outcome_bind]
  rintro (⟨e, rfl, h⟩ | ⟨first, second, v, rfl, hfirst, hsecond⟩)
  · exact ends_bind_iff.2 ⟨record, [], _, (List.append_nil _).symm, h, .stays _⟩
  · exact ends_bind_iff.2 ⟨first, second, _, rfl, hfirst, hsecond⟩

theorem ends_lift_iff {p : P.Task α} {f : α → P.Action β} {r : Except Error β} :
    Ends K (Action.outcome (B := P) (ExceptT.lift p >>= f)) record r ↔
      ∃ first second v, record = first ++ second ∧ Ends K p first v ∧ Ends K (f v).outcome second r := by
  rw [outcome_lift_bind]
  exact ends_bind_iff

theorem ends_sleep_of (w : K.World) (ms : Nat) : Ends K (Activity.sleep ms) [] () :=
  ends_bind_iff.2 ⟨[], [], (0 : Nat), rfl, ends_perform_iff.2 ⟨w, w, rfl, rfl⟩,
    ends_perform_iff.2 ⟨w, w, rfl, rfl⟩⟩

end Action

end Wayfind.Activity
