/-
All activities of an operation.

An operation is carried out by the activity that its caller waits for, and by others in the
background: branches of races, and whoever drains a race, releases a handle or waits for the
deadline.  Each of them yields on terms of its own and answers for tokens that obey the operation's;
what happens besides, at a time of its own, may cancel tokens, but it makes none and lets go of none
(`Company`).  Whoever has a turn leaves it so, and asks nothing but mild questions while the operation's
token is cancelled (`Company.advance`, `Company.runTask`).
-/
import Wayfind.Proofs.Activity.Annals
import Wayfind.Proofs.Activity.Obedience
import Wayfind.Proofs.Keeping.Jobs
import Wayfind.Proofs.Page.Searching

namespace Wayfind

open Activity (Token Tokens Request Duty Timeline Dealing)
open Activity.Timeline (advance onward dealings watched)

variable {B : PageSide} {K : Activity.Backend B.signature} {α : Type}

/-! ### What is asked -/

/-- The request asks nothing but such questions, and announces nothing. -/
def Hushed (kind : B.Query → Prop) : Request B.signature → Prop
  | .query q => kind q
  | .announce => False
  | _ => True

theorem Hushed.mono {kind kind' : B.Query → Prop} {r : Request B.signature} (h : Hushed kind r)
    (hkind : ∀ q, kind q → kind' q) : Hushed kind' r := by
  cases r with
  | query q => exact hkind q h
  | _ => exact h

/-- Whatever was done while the token was cancelled is hushed. -/
def Subdued (root : Token) (kind : B.Query → Prop) (log : List (Dealing B.signature)) : Prop :=
  ∀ x ∈ log, x.tokens.isCancelled root = true → Hushed kind x.exchange.request

section Subdued

variable {root : Token} {kind : B.Query → Prop} {log more : List (Dealing B.signature)}
  {x : Dealing B.signature}

theorem subdued_nil : Subdued root kind [] := nofun

theorem subdued_cons : Subdued root kind (x :: log) ↔
    (x.tokens.isCancelled root = true → Hushed kind x.exchange.request) ∧ Subdued root kind log :=
  List.forall_mem_cons

theorem subdued_append : Subdued root kind (log ++ more) ↔ Subdued root kind log ∧ Subdued root kind more :=
  List.forall_mem_append

theorem Subdued.mono {kind' : B.Query → Prop} (h : Subdued root kind log)
    (hkind : ∀ q, kind q → kind' q) : Subdued root kind' log :=
  fun x hx hc => (h x hx hc).mono hkind

end Subdued

/-! ### One turn -/

/-- What an activity can tell of the token is so. -/
def Sight.Tells (tokens : Tokens) (t : Token) : Sight → Prop
  | live => tokens.isCancelled t = false
  | cancelled => tokens.isCancelled t = true
  | gone => True

theorem exists_tells (tokens : Tokens) (t : Token) :
    ∃ sight : Sight, sight ≠ .gone ∧ sight.Tells tokens t := by
  rcases hc : tokens.isCancelled t with _ | _
  · exact ⟨.live, nofun, hc⟩
  · exact ⟨.cancelled, nofun, hc⟩

/-- Who cannot be mistaken sees a cancelled token cancelled. -/
theorem Sight.Tells.eq_cancelled {tokens : Tokens} {t : Token} {sight : Sight} (h : sight.Tells tokens t)
    (hthere : sight ≠ .gone) (hc : tokens.isCancelled t = true) : sight = .cancelled := by
  cases sight with
  | live => exact absurd hc (Bool.eq_false_iff.mp h)
  | cancelled => rfl
  | gone => exact absurd rfl hthere

theorem Sight.Tells.eq_live {tokens : Tokens} {t : Token} {sight : Sight} (h : sight.Tells tokens t)
    (hthere : sight ≠ .gone) (hc : tokens.isCancelled t = false) : sight = .live := by
  cases sight with
  | live => rfl
  | cancelled => exact absurd h (Bool.eq_false_iff.mp hc)
  | gone => exact absurd rfl hthere

variable {T : Terms B} {st : Stand} {tl after : Timeline B.signature K.World}

/-- How an activity holds tokens after a request. -/
def Terms.holds (held : Multiset Token) : (r : Request B.signature) → r.Answer → Multiset Token
  | .newToken _, (t : Token) => t ::ₘ held
  | .fork job, _ => held - Terms.given job
  | _, _ => held

/-- How an activity stands after a request, if it knows how its token is then. -/
structure Stand.Follows (T : Terms B) (st : Stand) (r : Request B.signature) (a : r.Answer)
    (tl : Timeline B.signature K.World) (st' : Stand) : Prop where
  moves : T.Moves st r a st'
  tells : st'.sight.Tells tl.tokens T.own
  since : st'.since ≤ tl.clock
  held : st'.held = Terms.holds st.held r a
  there : (∀ t, r ≠ .discard t) → st'.sight ≠ .gone

theorem exists_follows {r : Request B.signature} {a : r.Answer}
    (hp : Timeline.perform K tl r = some (a, after))
    (hthere : st.sight ≠ .gone) (hmade : T.own < tl.tokens.count) (htells : st.sight.Tells tl.tokens T.own)
    (hsince : st.since ≤ tl.clock) : ∃ st', st.Follows T r a after st' := by
  have hclock := Timeline.perform_clock hp
  have hsame (htokens : after.tokens = tl.tokens) (hmoves : T.Moves st r a st)
      (hheld : st.held = Terms.holds st.held r a) : ∃ st', st.Follows T r a after st' :=
    ⟨st, hmoves, htokens ▸ htells, hclock ▸ hsince, hheld, fun _ => hthere⟩
  cases Timeline.performs hp with
  | query q => exact hsame (Timeline.forkAll_keeps _ _).2.2.1 rfl rfl
  | clock => exact ⟨{ st with since := tl.clock }, ⟨hsince, rfl⟩, htells, le_rfl, rfl, fun _ => hthere⟩
  | sleepUntil htime =>
    exact ⟨_, rfl, htells, max_le hsince htime, rfl, fun _ => hthere⟩
  | fork job => exact ⟨_, rfl, htells, hsince, rfl, fun _ => hthere⟩
  | newToken parent =>
    refine ⟨_, rfl, ?_, hsince, rfl, fun _ => hthere⟩
    have hown : (tl.tokens.make parent).2.isCancelled T.own = tl.tokens.isCancelled T.own := by
      rw [Tokens.isCancelled_make, if_neg (Nat.ne_of_lt hmade)]
    cases hst : st.sight with
    | live => rw [hst] at htells; exact hown.trans htells
    | cancelled => rw [hst] at htells; exact hown.trans htells
    | gone => trivial
  | isCancelled t =>
    refine hsame rfl ⟨rfl, ?_⟩ rfl
    rintro rfl
    exact ⟨fun hc => htells.eq_cancelled hthere hc, fun hc => by rw [hc] at htells; exact htells⟩
  | cancel t =>
    obtain ⟨sight, hsight, hnow⟩ := exists_tells (tl.cancel t).tokens T.own
    exact ⟨{ st with sight := sight }, ⟨hsight, rfl, rfl⟩, hnow, hclock ▸ hsince, rfl, fun _ => hsight⟩
  | discard t => exact ⟨_, rfl, trivial, hsince, rfl, fun hdiscard => absurd rfl (hdiscard t)⟩
  | newInbox => exact hsame rfl rfl rfl
  | post inbox m =>
    refine hsame ?_ rfl rfl
    unfold Timeline.post
    split <;> rfl
  | take hm => exact hsame rfl ⟨hthere, rfl, rfl⟩ rfl
  | close inbox => exact hsame (Timeline.forkAll_keeps _ _).2.2.1 rfl rfl
  | announce => exact hsame rfl rfl rfl

/-- Without its token nothing is left to do. -/
theorem done_of_discard {Q : Stand → α → Prop} {t : Token}
    {a : (Request.discard (S := B.signature) t).Answer}
    {p : B.Task α} {st' : Stand} (hmoves : T.Moves st (.discard t) a st') (hp : Yields T Q p st') :
    ∃ v, p = .done v := by
  cases p with
  | done v => exact ⟨v, rfl⟩
  | ask => exact absurd (congrArg Stand.sight hmoves) hp.1

/-- Who sees its token cancelled makes only hushed requests. -/
theorem Terms.Allows.hushed {r : Request B.signature} {ws : List Token} {duties : List (Duty B.signature)}
    (h : T.Allows st ws duties r) (hover : st.sight = .cancelled) : Hushed T.mild r := by
  cases r with
  | query q => exact h hover
  | announce => exact absurd hover h
  | _ => trivial

/-! ### Who rests -/

/-- However an activity goes on from where it rests, it yields. -/
def Resumes (K : Activity.Backend B.signature) (T : Terms B) (p : B.Task α) (st : Stand) : Prop :=
  ∀ (tl : Timeline B.signature K.World) (sight : Sight), sight ≠ .gone → sight.Tells tl.tokens T.own →
    Yields T (fun _ _ => True) (onward tl p) { st with sight := sight }

/-- Who has not begun and watches nothing yields if it does so whatever it sees. -/
theorem resumes_of_fresh {p : B.Task α} (hwatched : watched p = [])
    (h : ∀ st, st.sight ≠ .gone → Yields T (fun _ _ => True) p st) (st : Stand) : Resumes K T p st := by
  intro tl sight hsight _
  rw [Timeline.onward_of_watched tl hwatched]
  exact h _ hsight

/-- Who has to wait goes on when it is interrupted, or when what it waits for has happened; and what it
has seen of its token before is still so, if that mattered. -/
theorem resumes_of_waits {r : Request B.signature} {ws : List Token} {duties : List (Duty B.signature)}
    {next : r.Answer → B.Task α} {stop : (t : Token) → t ∈ ws → B.Task α} (hr : r.waits = true)
    (h : Yields T (fun _ _ => True) (.ask r ws duties next stop) st) :
    Resumes K T (.ask r ws duties next stop) st := by
  intro tl sight hsight htells
  rcases hfind : ws.find? tl.isCancelled with _ | t
  case some => exact Timeline.onward_interrupted hfind ▸ h.2.2.2 t _ sight hsight
  rw [Timeline.onward_of_find_none hfind]
  -- under its token it has not been interrupted, so it sees the token as before
  have hsame (hlive : st.sight = .live) (hown : T.own ∈ ws) :
      Yields T (fun _ _ => True) (.ask r ws duties next stop) { st with sight := sight } := by
    have hquiet : tl.tokens.isCancelled T.own = false :=
      Bool.eq_false_iff.mpr (List.find?_eq_none.mp hfind T.own hown)
    rw [htells.eq_live hsight hquiet, ← hlive]
    exact h
  obtain ⟨hthere, hallows, hnext, hstop⟩ := h
  cases r with
  | sleepUntil time => exact hsame hallows.1 hallows.2
  | forever =>
    rcases hallows with ⟨hlive, hown⟩ | hidle
    · exact hsame hlive hown
    · exact ⟨hsight, Or.inr hidle, fun a => Empty.elim a, hstop⟩
  | take inbox =>
    exact ⟨hsight, hallows, fun a last hwakes => hnext a last ⟨hwakes.1, hwakes.2, hwakes.3⟩, hstop⟩
  | _ => exact absurd hr Bool.false_ne_true

/-! ### Tokens that are answered for -/

/-- All tokens that somebody answers for are different, newer than that of the operation, and obey it. -/
structure Entrusted (root : Token) (ts : Tokens) (keeps : Multiset Token) : Prop where
  made : root < ts.count
  obeys : ∀ t ∈ keeps, ts.Obeys root t
  newer : ∀ t ∈ keeps, root < t
  distinct : keeps.Nodup

namespace Entrusted

variable {root t : Token} {ts : Tokens} {keeps fewer : Multiset Token}

theorem le (h : Entrusted root ts keeps) (hle : fewer ≤ keeps) : Entrusted root ts fewer :=
  ⟨h.made, fun t ht => h.obeys t (Multiset.mem_of_le hle ht),
    fun t ht => h.newer t (Multiset.mem_of_le hle ht), Multiset.nodup_of_le hle h.distinct⟩

theorem obeys_of (h : Entrusted root ts keeps) (ht : t = root ∨ t ∈ keeps) : ts.Obeys root t := by
  rcases ht with rfl | ht
  · exact Tokens.obeys_self h.made
  · exact h.obeys t ht

/-- A token is made under one that somebody answers for. -/
theorem make (h : Entrusted root ts keeps) (hf : ts.Forest) (ht : t = root ∨ t ∈ keeps) :
    Entrusted root (ts.make (some t)).2 (ts.count ::ₘ keeps) := by
  refine ⟨by rw [Tokens.count_make]; exact Nat.lt_succ_of_lt h.made, ?_, ?_, ?_⟩
  · exact Multiset.forall_mem_cons.mpr ⟨Tokens.obeys_made hf (h.obeys_of ht) h.made,
      fun u hu => (h.obeys u hu).make hf h.made (some t)⟩
  · exact Multiset.forall_mem_cons.mpr ⟨h.made, h.newer⟩
  · exact Multiset.nodup_cons.mpr ⟨fun hc => Nat.lt_irrefl _ (h.obeys _ hc).made, h.distinct⟩

theorem cancel {tl : Timeline B.signature K.World} (h : Entrusted root tl.tokens keeps)
    (hf : tl.tokens.Forest) (t : Token) : Entrusted root (tl.cancel t).tokens keeps :=
  ⟨by rw [Timeline.count_cancel]; exact h.made, fun u hu => (h.obeys u hu).cancel hf t, h.newer,
    h.distinct⟩

/-- Whoever answers for a token may let go of it. -/
theorem discard (h : Entrusted root ts (t ::ₘ keeps)) : Entrusted root (ts.discard t) keeps := by
  obtain ⟨ht, hkeeps⟩ := Multiset.nodup_cons.mp h.distinct
  refine ⟨by rw [Tokens.count_discard]; exact h.made, fun u hu => ?_,
    fun u hu => h.newer u (Multiset.mem_cons_of_mem hu), hkeeps⟩
  refine (h.obeys u (Multiset.mem_cons_of_mem hu)).discard ?_
    (Nat.ne_of_lt (h.newer t (Multiset.mem_cons_self t keeps)))
  rintro rfl
  exact ht hu

end Entrusted

/-- Whatever the operation's token has obeyed, and is older, it still obeys. -/
def Inherits (root : Token) (ts after : Tokens) : Prop := ∀ s < root, ts.Obeys s root → after.Obeys s root

theorem Inherits.refl (root : Token) (ts : Tokens) : Inherits root ts ts := fun _ _ h => h

theorem Inherits.trans {root : Token} {ts mid after : Tokens} (h : Inherits root ts mid)
    (h' : Inherits root mid after) : Inherits root ts after := fun s hs hobeys => h' s hs (h s hs hobeys)

theorem inherits_make {root : Token} {ts : Tokens} (hf : ts.Forest) (hmade : root < ts.count)
    (parent : Option Token) : Inherits root ts (ts.make parent).2 :=
  fun _ hs h => h.make hf (hs.trans hmade) parent

/-! ### The company -/

/-- The tokens an activity answers for: its own, unless that is the operation's, and those that it has
made and not given away. -/
def Terms.keeps (T : Terms B) (st : Stand) : Multiset Token :=
  (if T.own = T.root then 0 else {T.own}) + st.held

theorem Terms.mem_keeps (T : Terms B) {st : Stand} {t : Token} (ht : t = T.own ∨ t ∈ st.held) :
    t = T.root ∨ t ∈ T.keeps st := by
  rcases ht with rfl | ht
  · by_cases hown : T.own = T.root
    · exact Or.inl hown
    · refine Or.inr (Multiset.mem_add.mpr (Or.inl ?_))
      rw [if_neg hown]
      exact Multiset.mem_singleton_self _
  · exact Or.inr (Multiset.mem_add.mpr (Or.inr ht))

/-- The terms are those of such an operation. -/
structure Terms.Of (T : Terms B) (root : Token) (mild : B.Query → Prop) : Prop where
  root : T.root = root
  mild : T.mild = mild

/-- A background activity of an operation, its terms, and how it stood when it last ran. -/
structure Fellow (B : PageSide) where
  activity : B.Task Unit
  terms : Terms B
  stand : Stand

/-- What all of them answer for. -/
def keepsOf (fellows : Multiset (Fellow B)) : Multiset Token :=
  (fellows.map fun x => x.terms.keeps x.stand).sum

theorem keepsOf_cons (x : Fellow B) (fellows : Multiset (Fellow B)) :
    keepsOf (x ::ₘ fellows) = x.terms.keeps x.stand + keepsOf fellows := by
  rw [keepsOf, Multiset.map_cons, Multiset.sum_cons]
  rfl

/-- What happens at a time, whatever an operation does: tokens are cancelled and such questions asked. -/
def Stranger (foreign : B.Query → Prop) : B.Task Unit → Prop
  | .done _ => True
  | .ask (.sleepUntil _) watched _ next _ => watched = [] ∧ ∀ a, Stranger foreign (next a)
  | .ask (.cancel _) watched _ next _ => watched = [] ∧ ∀ a, Stranger foreign (next a)
  | .ask (.query q) watched _ next _ => foreign q ∧ watched = [] ∧ ∀ a, Stranger foreign (next a)
  | .ask _ _ _ _ _ => False

theorem Stranger.watched {foreign : B.Query → Prop} {p : B.Task Unit} (h : Stranger foreign p) :
    watched p = [] := by
  cases p with
  | done a => rfl
  | ask r ws duties next stop =>
    cases r with
    | sleepUntil | cancel => exact h.1
    | query q => exact h.2.1
    | _ => exact absurd h id

theorem Stranger.ne_discard {foreign : B.Query → Prop} {r : Request B.signature} {ws : List Token}
    {duties : List (Duty B.signature)} {next : r.Answer → B.Task Unit}
    {stop : (t : Token) → t ∈ ws → B.Task Unit} (h : Stranger foreign (.ask r ws duties next stop))
    (t : Token) : r ≠ .discard t := by
  rintro rfl
  exact h

/-- The background activities of an operation, among strangers, and the tokens that they and others
answer for. -/
structure Company (root : Token) (mild foreign : B.Query → Prop) (tl : Timeline B.signature K.World)
    (fellows : Multiset (Fellow B)) (others : Multiset Token) : Prop where
  entrusted : Entrusted root tl.tokens (keepsOf fellows + others)
  bag : ∃ strangers, (∀ p ∈ strangers, Stranger foreign p) ∧
    tl.bag ≤ fellows.map Fellow.activity + strangers
  terms : ∀ x ∈ fellows, x.terms.Of root mild
  /-- In the background nobody waits for good. -/
  busy : ∀ x ∈ fellows, ∀ duties time, ¬ x.terms.idle duties time
  resumes : ∀ x ∈ fellows, Resumes K x.terms x.activity x.stand
  since : ∀ x ∈ fellows, x.stand.since ≤ tl.clock

namespace Company

variable {root : Token} {mild foreign : B.Query → Prop} {fellows : Multiset (Fellow B)}
  {others fewer : Multiset Token}

theorem le (hc : Company root mild foreign tl fellows others) (hle : fewer ≤ others) :
    Company root mild foreign tl fellows fewer :=
  ⟨hc.entrusted.le (Multiset.add_le_add_left hle), hc.bag, hc.terms, hc.busy, hc.resumes, hc.since⟩

/-- Only the tokens matter, who is there, and the time. -/
theorem same (hc : Company root mild foreign tl fellows others) (htokens : after.tokens = tl.tokens)
    (hbag : after.bag ≤ tl.bag) (hclock : tl.clock ≤ after.clock) :
    Company root mild foreign after fellows others := by
  obtain ⟨strangers, hstrangers, hle⟩ := hc.bag
  exact ⟨htokens ▸ hc.entrusted, ⟨strangers, hstrangers, hbag.trans hle⟩, hc.terms, hc.busy, hc.resumes,
    fun x hx => (hc.since x hx).trans hclock⟩

theorem retoken (hc : Company root mild foreign tl fellows others)
    (hentrusted : Entrusted root after.tokens (keepsOf fellows + fewer)) (hbag : after.bag = tl.bag)
    (hclock : after.clock = tl.clock) : Company root mild foreign after fellows fewer :=
  ⟨hentrusted, hbag ▸ hc.bag, hc.terms, hc.busy, hc.resumes, hclock ▸ hc.since⟩

/-- The tokens of an activity are answered for. -/
theorem mem_keeps (hT : T.Of root mild) {t : Token} (ht : t = T.own ∨ t ∈ st.held) :
    t = root ∨ t ∈ keepsOf fellows + (T.keeps st + others) :=
  (T.mem_keeps ht).imp (·.trans hT.root) fun ht =>
    Multiset.mem_add.mpr (Or.inr (Multiset.mem_add.mpr (Or.inl ht)))

/-- The token of an activity obeys that of its operation. -/
theorem obeys (hc : Company root mild foreign tl fellows (T.keeps st + others)) (hT : T.Of root mild) :
    tl.tokens.Obeys root T.own :=
  hc.entrusted.obeys_of (mem_keeps hT (Or.inl rfl))

theorem obeys_fellow (hc : Company root mild foreign tl fellows others) {x : Fellow B} (hx : x ∈ fellows) :
    tl.tokens.Obeys root x.terms.own := by
  obtain ⟨rest, rfl⟩ := Multiset.exists_cons_of_mem hx
  have hown : x.terms.own = x.terms.root ∨ x.terms.own ∈ x.terms.keeps x.stand :=
    x.terms.mem_keeps (Or.inl rfl)
  refine hc.entrusted.obeys_of (hown.imp (·.trans (hc.terms x hx).root) fun ht =>
    Multiset.mem_add.mpr (Or.inl ?_))
  rw [keepsOf_cons]
  exact Multiset.mem_add.mpr (Or.inl ht)

/-- Somebody joins. -/
theorem join (hc : Company root mild foreign tl fellows (others + fewer)) {x : Fellow B}
    (hkeeps : x.terms.keeps x.stand = others) (hbag : after.bag ≤ x.activity ::ₘ tl.bag)
    (htokens : after.tokens = tl.tokens) (hclock : after.clock = tl.clock) (hterms : x.terms.Of root mild)
    (hbusy : ∀ duties time, ¬ x.terms.idle duties time) (hresumes : Resumes K x.terms x.activity x.stand)
    (hsince : x.stand.since ≤ tl.clock) : Company root mild foreign after (x ::ₘ fellows) fewer := by
  obtain ⟨strangers, hstrangers, hle⟩ := hc.bag
  refine ⟨?_, ⟨strangers, hstrangers, hbag.trans ?_⟩, ?_, ?_, ?_, ?_⟩
  · rw [htokens, keepsOf_cons, hkeeps, add_comm others, add_assoc]
    exact hc.entrusted
  · rw [Multiset.map_cons, Multiset.cons_add]
    exact Multiset.cons_le_cons _ hle
  · exact Multiset.forall_mem_cons.mpr ⟨hterms, hc.terms⟩
  · exact Multiset.forall_mem_cons.mpr ⟨hbusy, hc.busy⟩
  · exact Multiset.forall_mem_cons.mpr ⟨hresumes, hc.resumes⟩
  · rw [hclock]
    exact Multiset.forall_mem_cons.mpr ⟨hsince, hc.since⟩

/-- A stranger joins. -/
theorem beside (hc : Company root mild foreign tl fellows others) {p : B.Task Unit}
    (hp : Stranger foreign p) (hbag : after.bag ≤ p ::ₘ tl.bag) (htokens : after.tokens = tl.tokens)
    (hclock : after.clock = tl.clock) : Company root mild foreign after fellows others := by
  obtain ⟨strangers, hstrangers, hle⟩ := hc.bag
  refine ⟨htokens ▸ hc.entrusted, ⟨p ::ₘ strangers, ?_, hbag.trans ?_⟩, hc.terms, hc.busy,
    hc.resumes, hclock ▸ hc.since⟩
  · exact Multiset.forall_mem_cons.mpr ⟨hp, hstrangers⟩
  · rw [Multiset.add_cons]
    exact Multiset.cons_le_cons _ hle

/-- Who had joined leaves. -/
theorem leave {x : Fellow B} (hc : Company root mild foreign tl (x ::ₘ fellows) others)
    (hbag : x.activity ::ₘ after.bag ≤ tl.bag) (htokens : after.tokens = tl.tokens)
    (hclock : after.clock = tl.clock) :
    Company root mild foreign after fellows (x.terms.keeps x.stand + others) := by
  obtain ⟨strangers, hstrangers, hle⟩ := hc.bag
  rw [Multiset.map_cons, Multiset.cons_add] at hle
  refine ⟨?_, ⟨strangers, hstrangers, (Multiset.cons_le_cons_iff _).mp (hbag.trans hle)⟩, ?_, ?_, ?_, ?_⟩
  · have hentrusted := hc.entrusted
    rw [keepsOf_cons, add_comm (x.terms.keeps x.stand), add_assoc] at hentrusted
    exact htokens ▸ hentrusted
  · exact fun y hy => hc.terms y (Multiset.mem_cons_of_mem hy)
  · exact fun y hy => hc.busy y (Multiset.mem_cons_of_mem hy)
  · exact fun y hy => hc.resumes y (Multiset.mem_cons_of_mem hy)
  · exact fun y hy => hclock ▸ hc.since y (Multiset.mem_cons_of_mem hy)

/-- Whoever has a token of its own and lets go of it leaves the company together. -/
theorem discard (hc : Company root mild foreign tl fellows (T.keeps st + others)) (hroot : T.own ≠ T.root) :
    root < T.own ∧
      Company root mild foreign { tl with tokens := tl.tokens.discard T.own } fellows others := by
  have hkeeps : T.keeps st = T.own ::ₘ st.held := by
    rw [Terms.keeps, if_neg hroot, Multiset.singleton_add]
  rw [hkeeps] at hc
  have hentrusted := hc.entrusted
  rw [Multiset.cons_add, Multiset.add_cons] at hentrusted
  have hafter : Company root mild foreign { tl with tokens := tl.tokens.discard T.own } fellows
      (st.held + others) := hc.retoken hentrusted.discard rfl rfl
  exact ⟨hentrusted.newer _ (Multiset.mem_cons_self _ _), hafter.le (Multiset.le_add_left _ _)⟩

end Company

/-! ### Turns -/

theorem perform_forest {r : Request B.signature} {a : r.Answer} (hf : tl.tokens.Forest)
    (hp : Timeline.perform K tl r = some (a, after)) (hr : ∀ t, r ≠ .discard t) : after.tokens.Forest := by
  cases Timeline.performs hp with
  | query | close =>
    refine Eq.mpr (congrArg Tokens.Forest (Timeline.forkAll_keeps _ _).2.2.1) ?_
    exact hf
  | newToken parent => exact hf.make parent
  | cancel t => exact Timeline.cancel_forest hf t
  | discard t => exact absurd rfl (hr t)
  | post inbox m =>
    unfold Timeline.post
    split <;> exact hf
  | _ => exact hf

theorem bag_fork (tl : Timeline B.signature K.World) (job : Job B.Handle B.Page B.Chore) :
    (tl.fork K job).bag ≤ K.start job ::ₘ tl.bag := by
  refine (Timeline.perform_bag (r := .fork job) (B := K) rfl).le.trans ?_
  rw [← Multiset.singleton_add, add_comm]
  exact le_rfl

/-- To let go of newer tokens changes nothing for older ones. -/
theorem perform_inherits {root : Token} {r : Request B.signature} {a : r.Answer} (hf : tl.tokens.Forest)
    (hmade : root < tl.tokens.count) (hp : Timeline.perform K tl r = some (a, after))
    (hr : ∀ t, r = .discard t → root < t) : Inherits root tl.tokens after.tokens := by
  cases Timeline.performs hp with
  | query | close =>
    refine Eq.mpr (congrArg (Inherits root tl.tokens) (Timeline.forkAll_keeps _ _).2.2.1) ?_
    exact .refl root tl.tokens
  | newToken parent => exact inherits_make hf hmade parent
  | cancel t => exact fun s _ h => h.cancel hf t
  | discard t =>
    have hnewer := hr t rfl
    exact fun s hs h => h.discard (Nat.ne_of_lt hnewer) (Nat.ne_of_lt (hs.trans hnewer))
  | post inbox m =>
    unfold Timeline.post
    split <;> exact .refl root tl.tokens
  | _ => exact .refl root tl.tokens

/-- A turn of the background leaves the tokens as the activity has left them. -/
theorem runTask_tokens {id : Nat} {task : Activity.Task B.signature}
    (hfind : tl.tasks.find? (·.id == id) = some task) :
    (Timeline.runTask K tl id).tokens =
      (advance K (onward (tl.besides id) task.activity) (tl.besides id)).2.tokens := by
  rw [← Timeline.resume_eq]
  obtain ⟨hdone, hrests⟩ := Activity.runTask_of_find hfind
    (Prod.mk.eta (p := Timeline.resume K task.activity (tl.besides id))).symm
  cases hlast : (Timeline.resume K task.activity (tl.besides id)).1 with
  | done a => rw [hdone hlast]
  | ask => rw [hrests fun a ha => by rw [hlast] at ha; exact absurd ha nofun]

/-- What an activity does in its turn is subdued, and spares older tokens. -/
structure Turned (root : Token) (kind : B.Query → Prop) (tl : Timeline B.signature K.World)
    (p : B.Task α) : Prop where
  subdued : Subdued root kind (dealings K p tl)
  inherits : Inherits root tl.tokens (advance K p tl).2.tokens

namespace Turned

variable {root : Token} {kind : B.Query → Prop} {r : Request B.signature} {ws : List Token}
  {duties : List (Duty B.signature)} {next : r.Answer → B.Task α}
  {stop : (t : Token) → t ∈ ws → B.Task α}

theorem done (a : α) : Turned root kind tl (.done a) := ⟨subdued_nil, .refl root tl.tokens⟩

theorem stuck (hp : Timeline.perform K tl r = none) : Turned root kind tl (.ask r ws duties next stop) := by
  refine ⟨?_, ?_⟩
  · rw [Timeline.dealings_stuck hp]
    exact subdued_nil
  · rw [(Timeline.stuck hp).1]
    exact .refl root tl.tokens

theorem performed {a : r.Answer} (hp : Timeline.perform K tl r = some (a, after))
    (hr : tl.tokens.isCancelled root = true → Hushed kind r)
    (hinherits : Inherits root tl.tokens after.tokens) (h : Turned root kind after (next a)) :
    Turned root kind tl (.ask r ws duties next stop) := by
  refine ⟨?_, ?_⟩
  · rw [Timeline.dealings_performed hp]
    exact subdued_cons.mpr ⟨hr, h.subdued⟩
  · simp only [Timeline.advance, hp]
    exact hinherits.trans h.inherits

end Turned

/-- The jobs of locators on a page side whose questions set nothing off. -/
structure Employs (K : Activity.Backend B.signature) (b : Browser B) (mild : B.Query → Prop) : Prop where
  release : ∀ h, K.start (.release h) = b.realm.release h
  branch : ∀ l i inbox, K.start (.branch l i inbox) = l.runBranch b i inbox
  drain : ∀ inbox count, K.start (.drain inbox count) = Race.drain b.realm inbox count
  expire : ∀ i ended, K.start (.expire i ended) = i.expire ended
  answers : ∀ q w, (K.answer q w).2.2 = []
  calm : ∀ h, watched (b.realm.release h) = []
  looks : b.Looks mild

/-- The terms of a background activity. -/
def Terms.aside (root own : Token) (mild : B.Query → Prop) : Terms B where
  root := root
  own := own
  mild := mild
  drains := True
  idle _ _ := False
  around := []

/-- Who has just been set to work. -/
def Fellow.fresh (root own : Token) (mild : B.Query → Prop) (p : B.Task Unit) : Fellow B :=
  ⟨p, .aside root own mild, ⟨.live, 0, 0⟩⟩

section Employed

variable {b : Browser B} {root : Token} {mild foreign : B.Query → Prop} {fellows : Multiset (Fellow B)}
  {others : Multiset Token} (hK : Employs K b mild)
include hK

/-- A branch answers for its token. -/
theorem resumes_branch {l : Locator B.Page} {i : Interrupt} {inbox : Activity.Inbox} (hi : i.token ≠ root)
    (st : Stand) : Resumes K (.aside root i.token mild) (K.start (.branch l i inbox)) st := by
  rw [hK.branch]
  refine resumes_of_fresh (Keeping.watched_bind (Keeping.fresh_resolve b i l).1 fun _ => rfl) ?_ st
  exact fun st hthere => yields_runBranch hK.looks l inbox rfl hi hthere

theorem resumes_release (h : B.Handle) (st : Stand) :
    Resumes K (.aside root root mild) (K.start (.release h)) st := by
  rw [hK.release]
  refine resumes_of_fresh (hK.calm h) (fun st hthere => ?_) st
  exact (yields_release hK.looks h hthere).mono fun _ _ _ => trivial

theorem resumes_drain (inbox : Activity.Inbox) (count : Nat) (st : Stand) :
    Resumes K (.aside root root mild) (K.start (.drain inbox count)) st := by
  rw [hK.drain]
  refine resumes_of_fresh (by cases count <;> rfl) (fun st hthere => ?_) st
  exact (Race.yields_drain hK.looks trivial inbox count hthere).mono fun _ _ _ => trivial

theorem resumes_expire {i : Interrupt} (hi : i.token = root) (ended : Token) (st : Stand) :
    Resumes K (.aside root root mild) (K.start (.expire i ended)) st := by
  rw [hK.expire]
  refine resumes_of_fresh ?_ (fun st hthere => yields_expire ended hi hthere) st
  unfold Interrupt.expire
  split <;> rfl

namespace Company

/-- Whoever was forked joins. -/
theorem fork (hc : Company root mild foreign tl fellows (T.keeps st + others)) {ws : List Token}
    {duties : List (Duty B.signature)} {job : Job B.Handle B.Page B.Chore}
    (hallows : T.Allows st ws duties (.fork job)) {st' : Stand}
    (hheld : st'.held = st.held - Terms.given job) :
    ∃ fellows', Company root mild foreign (tl.fork K job) fellows' (T.keeps st' + others) := by
  have hbag := bag_fork tl job
  -- who releases a handle or drains a race needs no token
  have haside (hgiven : Terms.given job = 0)
      (hresumes : ∀ st, Resumes K (.aside root root mild) (K.start job) st) :
      ∃ fellows', Company root mild foreign (tl.fork K job) fellows' (T.keeps st' + others) := by
    have hkeeps : T.keeps st' = T.keeps st := by
      rw [Terms.keeps, Terms.keeps, hheld, hgiven, Multiset.sub_zero]
    rw [hkeeps]
    rw [← zero_add (T.keeps st + others)] at hc
    exact ⟨_, hc.join (x := .fresh root root mild (K.start job))
      ((congrArg (· + 0) (if_pos rfl)).trans (add_zero _)) hbag rfl rfl ⟨rfl, rfl⟩ (fun _ _ => id)
      (hresumes _) (Nat.zero_le _)⟩
  cases job with
  | release h => exact haside rfl (resumes_release hK h)
  | drain inbox count => exact haside rfl (resumes_drain hK inbox count)
  | branch l i inbox =>
    have hmem : i.token ∈ T.keeps st := Multiset.mem_add.mpr (Or.inr hallows)
    have hroot : i.token ≠ root := Nat.ne_of_gt (hc.entrusted.newer _
      (Multiset.mem_add.mpr (Or.inr (Multiset.mem_add.mpr (Or.inl hmem)))))
    have hkeeps : T.keeps st = {i.token} + T.keeps st' := by
      rw [Terms.keeps, Terms.keeps, hheld, add_left_comm]
      refine congrArg _ ?_
      rw [Terms.given, Multiset.sub_singleton, Multiset.singleton_add, Multiset.cons_erase hallows]
    rw [hkeeps, add_assoc] at hc
    exact ⟨_, hc.join (x := .fresh root i.token mild (K.start (.branch l i inbox)))
      ((congrArg (· + 0) (if_neg hroot)).trans (add_zero _)) hbag rfl rfl ⟨rfl, rfl⟩ (fun _ _ => id)
      (resumes_branch hK hroot _) (Nat.zero_le _)⟩
  | _ => exact absurd hallows id

/-- Whoever makes a request leaves the company together, unless it lets go of its token. -/
theorem perform (hc : Company root mild foreign tl fellows (T.keeps st + others)) (hT : T.Of root mild)
    (hf : tl.tokens.Forest) {r : Request B.signature} {a : r.Answer} {ws : List Token}
    {duties : List (Duty B.signature)} {st' : Stand} (hp : Timeline.perform K tl r = some (a, after))
    (hallows : T.Allows st ws duties r) (hfollows : st.Follows T r a after st')
    (hr : ∀ t, r ≠ .discard t) :
    ∃ fellows', Company root mild foreign after fellows' (T.keeps st' + others) := by
  have hbag := Timeline.perform_bag hp
  have hclock := Timeline.perform_clock hp
  have hheld := hfollows.held
  have hsame (hjobs : Timeline.jobsOf K tl r = []) (hentrusted : ∀ keeps, Entrusted root tl.tokens keeps →
      Entrusted root after.tokens keeps) (hheld : st'.held = st.held) :
      ∃ fellows', Company root mild foreign after fellows' (T.keeps st' + others) := by
    rw [hjobs] at hbag
    have hkeeps : T.keeps st' = T.keeps st := by rw [Terms.keeps, Terms.keeps, hheld]
    rw [hkeeps]
    exact ⟨fellows, hc.retoken (hentrusted _ hc.entrusted) (hbag.trans (add_zero _)) hclock⟩
  cases Timeline.performs hp with
  | query q =>
    refine hsame (hK.answers q _) (fun keeps h => ?_) hheld
    rw [(Timeline.forkAll_keeps _ _).2.2.1]
    exact h
  | cancel t => exact hsame rfl (fun keeps h => h.cancel hf t) hheld
  | post inbox m =>
    refine hsame rfl (fun keeps h => ?_) hheld
    unfold Timeline.post
    split <;> exact h
  | newToken parent =>
    obtain ⟨p, rfl, hparent⟩ := hallows
    have hkeeps : T.keeps st' = tl.tokens.count ::ₘ T.keeps st := by
      rw [Terms.keeps, Terms.keeps, hheld]
      exact Multiset.add_cons _ _ _
    refine ⟨fellows, hc.retoken ?_ (hbag.trans (add_zero _)) rfl⟩
    rw [hkeeps, Multiset.cons_add, Multiset.add_cons]
    exact hc.entrusted.make hf (mem_keeps hT hparent)
  | fork job => exact hc.fork hK hallows hheld
  | discard t => exact absurd rfl (hr t)
  | close inbox => exact absurd hallows id
  | _ => exact hsame rfl (fun keeps h => h) hheld

/-- In its turn an activity is subdued.  Afterwards it has ended or rests, and the company is together. -/
theorem advance (hc : Company root mild foreign tl fellows (T.keeps st + others)) (hT : T.Of root mild)
    (hf : tl.tokens.Forest) {p : B.Task α} (hp : Yields T (fun _ _ => True) p st)
    (htells : st.sight.Tells tl.tokens T.own) (hsince : st.since ≤ tl.clock) :
    Turned root mild tl p ∧
      (((∃ a, (advance K p tl).1 = .done a) ∧
          ∃ fellows', Company root mild foreign (advance K p tl).2 fellows' others) ∨
        ∃ fellows' st', Company root mild foreign (advance K p tl).2 fellows' (T.keeps st' + others) ∧
          Resumes K T (advance K p tl).1 st' ∧ st'.since ≤ (advance K p tl).2.clock) := by
  induction p generalizing st tl fellows with
  | done a => exact ⟨.done a, Or.inl ⟨⟨a, rfl⟩, fellows, hc.le (Multiset.le_add_left _ _)⟩⟩
  | ask r ws duties next stop ihn ihs =>
    rcases hr : Timeline.perform K tl r with _ | ⟨a, after⟩
    · rw [(Timeline.stuck hr).1]
      have hrests : Resumes K T (.ask r ws duties next stop) st :=
        resumes_of_waits (Activity.waits_of_perform hr) hp
      exact ⟨.stuck hr, Or.inr ⟨fellows, st, hc, hrests, hsince⟩⟩
    obtain ⟨hthere, hallows, hnext, -⟩ := hp
    obtain ⟨st', hfollows⟩ := exists_follows hr hthere (hc.obeys hT).made htells hsince
    have hrest := hnext a st' hfollows.moves
    have hhushed (hover : tl.tokens.isCancelled root = true) : Hushed mild r := by
      rw [← hT.mild]
      exact hallows.hushed (htells.eq_cancelled hthere ((hc.obeys hT).isCancelled hover))
    rw [show advance K (.ask r ws duties next stop) tl = advance K (next a) after by
      simp only [Timeline.advance, hr]]
    by_cases hdiscard : ∃ t, r = .discard t
    · obtain ⟨t, rfl⟩ := hdiscard
      obtain ⟨v, hdone⟩ := done_of_discard hfollows.moves hrest
      obtain ⟨rfl, hroot⟩ := hallows
      obtain ⟨hnewer, hafter⟩ := hc.discard hroot
      refine ⟨.performed hr hhushed (perform_inherits hf hc.entrusted.made hr ?_) (hdone ▸ .done v), ?_⟩
      · intro t ht
        cases ht
        exact hnewer
      rw [hdone]
      cases Timeline.performs hr with
      | discard => exact Or.inl ⟨⟨v, rfl⟩, fellows, hafter⟩
    · have hr' : ∀ t, r ≠ .discard t := fun t ht => hdiscard ⟨t, ht⟩
      obtain ⟨fellows', hc'⟩ := hc.perform hK hT hf hr hallows hfollows hr'
      obtain ⟨hturned, hlast⟩ := ihn a hc' (perform_forest hf hr hr') hrest hfollows.tells hfollows.since
      exact ⟨.performed hr hhushed
        (perform_inherits hf hc.entrusted.made hr fun t ht => absurd ht (hr' t)) hturned, hlast⟩

/-- What happens at a time leaves the company together. -/
theorem stranger (hc : Company root mild foreign tl fellows others) (hf : tl.tokens.Forest)
    {p : B.Task Unit} (hp : Stranger foreign p) :
    Company root mild foreign (Timeline.advance K p tl).2 fellows others ∧
      Stranger foreign (Timeline.advance K p tl).1 ∧ Turned root foreign tl p := by
  induction p generalizing tl with
  | done a => exact ⟨hc, trivial, .done a⟩
  | ask r ws duties next stop ihn ihs =>
    rcases hr : Timeline.perform K tl r with _ | ⟨a, after⟩
    · rw [(Timeline.stuck hr).1]
      exact ⟨hc, hp, .stuck hr⟩
    rw [show Timeline.advance K (.ask r ws duties next stop) tl = Timeline.advance K (next a) after by
      simp only [Timeline.advance, hr]]
    have hdiscard := hp.ne_discard
    have hgo (hnext : ∀ a, Stranger foreign (next a)) (hhushed : Hushed foreign r)
        (hafter : Company root mild foreign after fellows others) :
        Company root mild foreign (Timeline.advance K (next a) after).2 fellows others ∧
          Stranger foreign (Timeline.advance K (next a) after).1 ∧
          Turned root foreign tl (.ask r ws duties next stop) := by
      obtain ⟨hlast, hrest, hturned⟩ := ihn a hafter (perform_forest hf hr hdiscard) (hnext a)
      exact ⟨hlast, hrest, .performed hr (fun _ => hhushed)
        (perform_inherits hf hc.entrusted.made hr fun t ht => absurd ht (hdiscard t)) hturned⟩
    cases r with
    | sleepUntil time =>
      refine hgo hp.2 trivial ?_
      cases Timeline.performs hr with
      | sleepUntil => exact hc
    | cancel t =>
      refine hgo hp.2 trivial (hc.retoken ?_ ?_ (Timeline.perform_clock hr))
      · cases Timeline.performs hr with
        | cancel => exact hc.entrusted.cancel hf t
      · exact (Timeline.perform_bag hr).trans (add_zero _)
    | query q =>
      refine hgo hp.2.2 hp.1 (hc.retoken ?_ ?_ (Timeline.perform_clock hr))
      · cases Timeline.performs hr with
        | query =>
          refine Eq.mpr (congrArg (Entrusted root · _) (Timeline.forkAll_keeps _ _).2.2.1) ?_
          exact hc.entrusted
      · have hbag := Timeline.perform_bag hr
        rw [show Timeline.jobsOf K tl (.query q) = [] from hK.answers q tl.world] at hbag
        exact hbag.trans (add_zero _)
    | _ => exact absurd hp id

/-- A background activity has its turn. -/
theorem runTask (hc : Company root mild foreign tl fellows others) (hf : tl.tokens.Forest) (id : Nat) :
    (∃ fellows', Company root mild foreign (Timeline.runTask K tl id) fellows' others) ∧
      Subdued root (fun q => mild q ∨ foreign q) (Timeline.taskDealings K tl id) ∧
      Inherits root tl.tokens (Timeline.runTask K tl id).tokens := by
  rcases hfind : tl.tasks.find? (·.id == id) with _ | task
  · rw [Timeline.runTask_of_find_none hfind]
    simp only [Timeline.taskDealings, hfind]
    exact ⟨⟨fellows, hc⟩, subdued_nil, .refl root tl.tokens⟩
  have hrejoined : Timeline.Rejoined
      (Timeline.advance K (onward (tl.besides id) task.activity) (tl.besides id)).1
      (Timeline.advance K (onward (tl.besides id) task.activity) (tl.besides id)).2
      (Timeline.runTask K tl id) := by
    rw [← Timeline.resume_eq]
    exact Timeline.runTask_rejoined hfind Prod.mk.eta.symm
  have hout := Timeline.cons_bag_le hfind
  have hlast := runTask_tokens (K := K) hfind
  have hbag := hrejoined.bag
  rw [add_comm, Multiset.singleton_add] at hbag
  obtain ⟨strangers, hstrangers, hle⟩ := hc.bag
  simp only [Timeline.taskDealings, hfind]
  have hthere := Multiset.mem_of_le (hout.trans hle) (Multiset.mem_cons_self _ _)
  rcases Multiset.mem_add.mp hthere with hmem | hmem
  · -- it is one of the company: it leaves, and joins again if it has not ended
    obtain ⟨x, hx, hactivity⟩ := Multiset.mem_map.mp hmem
    obtain ⟨rest, rfl⟩ := Multiset.exists_cons_of_mem hx
    have hT := hc.terms x hx
    obtain ⟨sight, hsight, htells⟩ := exists_tells (tl.besides id).tokens x.terms.own
    have hyields := hc.resumes x hx (tl.besides id) sight hsight htells
    have hleft : Company root mild foreign (tl.besides id) rest
        (x.terms.keeps { x.stand with sight := sight } + others) := hc.leave (hactivity ▸ hout) rfl rfl
    rw [hactivity] at hyields
    obtain ⟨hturned, hafter⟩ := hleft.advance hK hT hf hyields htells (hc.since x hx)
    refine ⟨?_, hturned.subdued.mono fun q => Or.inl, hlast ▸ hturned.inherits⟩
    rcases hafter with ⟨⟨a, hdone⟩, fellows', hafter⟩ | ⟨fellows', st', hafter, hresumes, hsince⟩
    · rw [hdone] at hbag
      exact ⟨fellows', hafter.beside (p := .done a) trivial hbag hlast hrejoined.clock⟩
    · exact ⟨⟨_, x.terms, st'⟩ ::ₘ fellows', hafter.join rfl hbag hlast hrejoined.clock hT
        (hc.busy x hx) hresumes hsince⟩
  · -- it is a stranger, whom nothing interrupts
    have hstranger := hstrangers task.activity hmem
    obtain ⟨others', rfl⟩ := Multiset.exists_cons_of_mem hmem
    have hleft : Company root mild foreign (tl.besides id) fellows others := by
      rw [Multiset.add_cons] at hle
      exact ⟨hc.entrusted, ⟨others', fun p hp => hstrangers p (Multiset.mem_cons_of_mem hp),
        (Multiset.cons_le_cons_iff _).mp (hout.trans hle)⟩, hc.terms, hc.busy, hc.resumes, hc.since⟩
    rw [Timeline.onward_of_watched _ hstranger.watched] at hlast hbag hrejoined ⊢
    obtain ⟨hafter, hleftover, hturned⟩ := hleft.stranger hK hf hstranger
    exact ⟨⟨fellows, hafter.beside hleftover hbag hlast hrejoined.clock⟩,
      hturned.subdued.mono fun q => Or.inr, hlast ▸ hturned.inherits⟩

end Company

end Employed

end Wayfind
