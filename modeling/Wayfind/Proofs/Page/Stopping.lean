/-
What cancelling the token of an operation comes to.

From its start on, whoever carries the operation out is in the company of those that it has set to work
(`UnderWay`), and as long as the operation's token is cancelled everybody there is subdued
(`UnderWay.of_annals`).  Nobody there waits for a time then; whoever has to wait does so for a branch of
a race, and these do not wait for each other in a circle.  So where nobody can go on the operation is over
(`UnderWay.over_of_resting`).
-/
import Wayfind.Proofs.Keeping.Settling
import Wayfind.Proofs.Page.Company

namespace Wayfind

open Activity (Token Tokens Inbox Request Duty Timeline Crowd Member Kept Stuck Comes Exchange Dealing
  Annals)
open Activity.Timeline (advance onward dealings)
open Keeping (Share Custody keeping)
open PageSide (Action)

variable {B : PageSide} {K : Activity.Backend B.signature} {α β : Type}

/-! ### Under way -/

/-- The terms of whoever carries an operation out: it waits for good only from some time on, or with the
duty to tell the end of the operation. -/
def Terms.leading (root : Token) (mild : B.Query → Prop) (late : Nat → Prop) : Terms B where
  root := root
  own := root
  mild := mild
  drains := False
  idle duties time := late time ∨ ∃ ended, duties = [.cancel ended]
  around := []

theorem Terms.keeps_leading (root : Token) (mild : B.Query → Prop) (late : Nat → Prop) (st : Stand) :
    (Terms.leading root mild late).keeps st = st.held := by
  rw [Terms.keeps, Terms.leading, if_pos rfl, zero_add]

/-- An operation with its company: whoever carries it out waits, or has ended. -/
inductive UnderWay (root : Token) (mild foreign : B.Query → Prop) (late : Nat → Prop)
    (c : Crowd K Unit α) : Prop
  | runs {who : Unit} {began : Nat} {p : B.Task α} {fellows : Multiset (Fellow B)} {st : Stand}
      (hrunning : c.running = [⟨who, began, p⟩])
      (hcompany : Company root mild foreign c.timeline fellows st.held)
      (hresumes : Resumes K (.leading root mild late) p st) (hsince : st.since ≤ c.timeline.clock)
  | ended {fellows : Multiset (Fellow B)} (hrunning : c.running = [])
      (hcompany : Company root mild foreign c.timeline fellows 0)

/-- The operation's token obeys the caller's signal, if there is one, and the signal is older. -/
def Signalled (signal : Option Token) (root : Token) (ts : Tokens) : Prop :=
  ∀ s ∈ signal, s < root ∧ ts.Obeys s root

theorem Signalled.inherits {signal : Option Token} {root : Token} {ts after : Tokens}
    (h : Signalled signal root ts) (hafter : Inherits root ts after) : Signalled signal root after :=
  fun s hs => ⟨(h s hs).1, hafter s (h s hs).1 (h s hs).2⟩

/-- The operation's token has been made, under the signal. -/
structure Rooted (signal : Option Token) (root : Token) (ts : Tokens) : Prop where
  forest : ts.Forest
  made : root < ts.count
  signalled : Signalled signal root ts

/-- Such an activity carries the operation out, in such a company. -/
structure Conducts (signal : Option Token) (root : Token) (mild foreign : B.Query → Prop)
    (late : Nat → Prop) (q : B.Task α) (tl : Timeline B.signature K.World) (fellows : Multiset (Fellow B))
    (st : Stand) : Prop where
  rooted : Rooted signal root tl.tokens
  company : Company root mild foreign tl fellows st.held
  tells : st.sight.Tells tl.tokens root
  since : st.since ≤ tl.clock
  yields : Yields (.leading root mild late) (fun _ _ => True) q st

/-- After some hushed exchanges an activity carries the operation out. -/
structure Opens (K : Activity.Backend B.signature) (program : B.Task α)
    (start : Timeline B.signature K.World) (signal : Option Token) (root : Token)
    (mild foreign : B.Query → Prop) (late : Nat → Prop) (said : List (Exchange B.signature)) : Prop where
  hushed : ∀ x ∈ said, Hushed mild x.request
  opened : ∃ q mid fellows st, Comes K program start said q mid ∧
    Conducts signal root mild foreign late q mid fellows st

namespace UnderWay

variable {b : Browser B} {signal : Option Token} {root : Token} {mild foreign : B.Query → Prop}
  {late : Nat → Prop} {c : Crowd K Unit α} {program : B.Task α} {start : Timeline B.signature K.World}
  {said : List (Exchange B.signature)} {log : List (Dealing B.signature)}

/-- Whoever carries it out has a turn. -/
theorem advance (hK : Employs K b mild) {tl : Timeline B.signature K.World} {fellows : Multiset (Fellow B)}
    {st : Stand} {q : B.Task α} (h : Conducts signal root mild foreign late q tl fellows st) (who : Unit)
    (began : Nat) (hrunning : c.running = []) :
    UnderWay root mild foreign late (c.place who began (Timeline.advance K q tl)) ∧
      Turned root mild tl q ∧ Signalled signal root (Timeline.advance K q tl).2.tokens := by
  have hT : (Terms.leading root mild late : Terms B).Of root mild := ⟨rfl, rfl⟩
  have hc := h.company
  rw [← Terms.keeps_leading root mild late, ← add_zero ((Terms.leading root mild late).keeps st)] at hc
  obtain ⟨hturned, hafter⟩ := hc.advance hK hT h.rooted.forest h.yields h.tells h.since
  refine ⟨?_, hturned, h.rooted.signalled.inherits hturned.inherits⟩
  clear hturned
  revert hafter
  generalize Timeline.advance K q tl = next
  obtain ⟨p, after⟩ := next
  intro hafter
  rcases hafter with ⟨⟨a, rfl⟩, fellows', hc'⟩ | ⟨fellows', st', hc', hresumes, hsince'⟩
  · exact .ended hrunning hc'
  · rw [Terms.keeps_leading, add_zero] at hc'
    cases p with
    | done a => exact .ended hrunning (hc'.le (Multiset.zero_le _))
    | ask r ws duties next stop =>
      have hrunning' :
          c.running ++ [(⟨who, began, .ask r ws duties next stop⟩ : Member Unit B.signature α)] =
            [⟨who, began, .ask r ws duties next stop⟩] := by
        rw [hrunning, List.nil_append]
      exact .runs hrunning' hc' hresumes hsince'

/-- The company stays together as time passes, and whoever is queued. -/
theorem later (h : UnderWay root mild foreign late c) {after : Timeline B.signature K.World}
    (htokens : after.tokens = c.timeline.tokens) (hbag : after.bag ≤ c.timeline.bag)
    (hclock : c.timeline.clock ≤ after.clock) :
    UnderWay root mild foreign late { c with timeline := after } := by
  cases h with
  | runs hrunning hcompany hresumes hsince =>
    exact .runs hrunning (hcompany.same htokens hbag hclock) hresumes (hsince.trans hclock)
  | ended hrunning hcompany => exact .ended hrunning (hcompany.same htokens hbag hclock)

/-- A background activity has a turn. -/
theorem runTask (hK : Employs K b mild) (h : UnderWay root mild foreign late c)
    (hf : c.timeline.tokens.Forest) (id : Nat) :
    UnderWay root mild foreign late { c with timeline := Timeline.runTask K c.timeline id } ∧
      Subdued root (fun q => mild q ∨ foreign q) (Timeline.taskDealings K c.timeline id) ∧
      Inherits root c.timeline.tokens (Timeline.runTask K c.timeline id).tokens := by
  cases h with
  | runs hrunning hcompany hresumes hsince =>
    obtain ⟨⟨fellows', hafter⟩, hturned⟩ := hcompany.runTask hK hf id
    have hclock := (Timeline.runTask_instant (B := K) c.timeline id).clock
    exact ⟨.runs hrunning hafter hresumes (hclock ▸ hsince), hturned⟩
  | ended hrunning hcompany =>
    obtain ⟨⟨fellows', hafter⟩, hturned⟩ := hcompany.runTask hK hf id
    exact ⟨.ended hrunning hafter, hturned⟩

/-- However it goes on, the operation stays under way, what is done is subdued, and its token obeys the
signal. -/
theorem of_annals (hK : Employs K b mild)
    (hopens : Opens K program start signal root mild foreign late said)
    (hforest : ∀ c log, Annals K program start c log → c.timeline.tokens.Forest)
    (h : Annals K program start c log) :
    UnderWay root mild foreign late c ∧ Subdued root (fun q => mild q ∨ foreign q) log ∧
      Signalled signal root c.timeline.tokens := by
  induction h with
  | enters =>
    obtain ⟨hhushed, q, mid, fellows, st, hcomes, hconducts⟩ := hopens
    obtain ⟨hunderway, hturned, hsignal⟩ := advance hK hconducts () start.clock (c := Crowd.init start) rfl
    obtain ⟨first, hfirst, hdealings⟩ := hcomes.exists_dealings
    rw [hcomes.advance_eq, hdealings]
    refine ⟨hunderway, subdued_append.mpr ⟨fun x hx _ => ?_, hturned.subdued.mono fun q => Or.inl⟩, ?_⟩
    · exact (hhushed x.exchange (hfirst ▸ List.mem_map_of_mem hx)).mono fun q => Or.inl
    · rw [Activity.Tale.place_timeline]
      exact hsignal
  | @task c log hc id hready ih =>
    obtain ⟨hunderway, hlog, hsignal⟩ := ih
    have hqueue : UnderWay root mild foreign late
        { c with timeline := { c.timeline with ready := c.timeline.ready.erase id } } :=
      hunderway.later rfl le_rfl le_rfl
    obtain ⟨hafter, hsubdued, hinherits⟩ := hqueue.runTask hK (hforest c log hc) id
    exact ⟨hafter, subdued_append.mpr ⟨hlog, hsubdued⟩, hsignal.inherits hinherits⟩
  | @go c log hc m hmem hresume ih =>
    obtain ⟨hunderway, hlog, hsignal⟩ := ih
    cases hunderway with
    | ended hrunning => exact absurd (hmem.symm.trans hrunning) (List.cons_ne_nil _ _)
    | @runs who began p fellows st hrunning hcompany hresumes hsince =>
      obtain rfl : m = ⟨who, began, p⟩ := (List.cons.inj (hmem.symm.trans hrunning)).1
      obtain ⟨sight, hsight, htells⟩ := exists_tells c.timeline.tokens root
      have hconducts : Conducts signal root mild foreign late (onward c.timeline p) c.timeline fellows
          { st with sight := sight } :=
        ⟨⟨hforest c log hc, hcompany.entrusted.made, hsignal⟩, hcompany, htells, hsince,
          hresumes c.timeline sight hsight htells⟩
      obtain ⟨hafter, hturned, hsignalled⟩ :=
        advance hK hconducts who began (c := { c with running := [] }) rfl
      rw [Timeline.resume_eq, Activity.Tale.place_timeline]
      exact ⟨hafter, subdued_append.mpr ⟨hlog, hturned.subdued.mono fun q => Or.inl⟩, hsignalled⟩
  | wait _ time _ _ hle _ _ ih => exact ⟨ih.1.later rfl le_rfl hle, ih.2⟩

end UnderWay

/-- The annals begin as the operation does. -/
theorem Opens.head {signal : Option Token} {root : Token} {mild foreign : B.Query → Prop}
    {late : Nat → Prop} {program : B.Task α} {start : Timeline B.signature K.World}
    {said : List (Exchange B.signature)} {x : Exchange B.signature}
    {c : Crowd K Unit α} {log : List (Dealing B.signature)}
    (hopens : Opens K program start signal root mild foreign late said) (hx : said.head? = some x)
    (h : Annals K program start c log) : log.head?.map Dealing.exchange = some x := by
  obtain ⟨-, q, mid, -, -, hcomes, -⟩ := hopens
  obtain ⟨first, rfl, hdealings⟩ := hcomes.exists_dealings
  obtain ⟨more, rfl⟩ := h.exists_append
  rw [hdealings]
  cases first with
  | nil => exact absurd hx nofun
  | cons d rest => exact hx

/-! ### The beginning -/

section Opening

variable {b : Browser B} {root : Token} {mild foreign : B.Query → Prop} {late : Nat → Prop} {T : Terms B}
  {γ : Type} {first : B.Action α} {signal : Option Token} {l : Locator B.Page}

/-- An action that another one begins with, and that yields whatever this comes to. -/
def Continues (T : Terms B) (first : B.Action α) (a : B.Action β) : Prop :=
  ∃ f, a.outcome = Activity.bind first.outcome f ∧
    ∀ r st, st.sight ≠ .gone → Yields T (fun after _ => st.Onward after) (f r) st

theorem Continues.refl : Continues T first first :=
  ⟨.done, (Activity.bind_done _).symm, fun _ _ hthere => .refl hthere⟩

theorem Continues.bind {a : B.Action β} {g : β → B.Action γ} (h : Continues T first a)
    (hg : ∀ v st, st.sight ≠ .gone → Complies T st (g v)) : Continues T first (a >>= g) := by
  obtain ⟨f, hf, hyields⟩ := h
  refine ⟨fun r => Activity.bind (f r) fun v => (Action.ofExcept v >>= g).outcome, ?_,
    fun r st hthere => ?_⟩
  · rw [outcome_bind, hf, Activity.bind_assoc]
    refine congrArg (Activity.bind first.outcome) (funext fun r => congrArg (Activity.bind (f r)) ?_)
    exact funext fun v => by cases v <;> rfl
  · refine yields_bind ((hyields r st hthere).mono fun after v honward => ?_)
    cases v with
    | ok v => exact (hg v after honward.there).onward honward
    | error e => exact honward

/-- What the caller does with what was found yields. -/
theorem continues_terminal (t : Keeping.Terminal) (hb : b.Looks T.mild)
    (hreads : t.reads = true → ∀ h {T' : Terms B} {st : Stand}, T'.mild = T.mild → st.sight ≠ .gone →
      Complies T' st (b.realm.jsonValue h)) (l : Locator B.Page) (signal : Option Token) :
    ∃ op, Continues T (l.run b op signal) (t.action b l signal) := by
  have hhandle : Continues T (l.run b .find signal) (l.waitHandle b signal) :=
    Continues.refl.bind fun found st hthere => by
      cases found with
      | some handle => exact .pure hthere
      | none => exact .throw hthere
  have hvalue (hjson : ∀ h {T' : Terms B} {st : Stand}, T'.mild = T.mild → st.sight ≠ .gone →
      Complies T' st (b.realm.jsonValue h)) : Continues T (l.run b .find signal) (l.waitValue b signal) :=
    hhandle.bind fun handle st hthere =>
      (Complies.attempt (.protect (hjson handle rfl hthere))).bind fun value after honward =>
        complies_releaseThen hb handle _ honward.there fun _ h => .ofExcept h.there
  have hperform (op : Operation) : Continues T (l.run b op signal) (do
      l.perform b op signal
      return none : B.Action (Option B.Handle)) :=
    (Continues.refl.bind fun _ _ hthere => .pure hthere).bind fun _ _ hthere => .pure hthere
  cases t with
  | waitHandle => exact ⟨.find, hhandle.bind fun _ _ hthere => .pure hthere⟩
  | waitValue => exact ⟨.find, (hvalue (hreads rfl)).bind fun _ _ hthere => .pure hthere⟩
  | waitAs reader =>
    have hread := hvalue (hreads rfl)
    refine ⟨.find, (hread.bind fun value st hthere => ?_).bind fun _ _ hthere => .pure hthere⟩
    split
    · exact .pure hthere
    · exact .throw hthere
  | wait =>
    exact ⟨.find, (hhandle.bind fun handle st hthere => complies_releaseIn hb handle hthere).bind
      fun _ _ hthere => .pure hthere⟩
  | click options => exact ⟨.click options, hperform _⟩
  | hover => exact ⟨.hover, hperform _⟩
  | scroll top left => exact ⟨.scroll top left, hperform _⟩
  | fill value => exact ⟨.fill value, hperform _⟩

theorem comes_perform {r : Request B.signature} {a : r.Answer} {g : r.Answer → B.Action β}
    {q : B.Task (Except Error β)} {tl mid after : Timeline B.signature K.World}
    {said : List (Exchange B.signature)} (hp : Timeline.perform K tl r = some (a, mid))
    (h : Comes K (g a).outcome mid said q after) :
    Comes K (Action.perform r >>= g).outcome tl (⟨r, a⟩ :: said) q after := by
  rw [outcome_perform_bind]
  exact .answered hp h

/-- An operation without a time limit makes two tokens, and begins. -/
theorem comes_unlimited (signal : Option Token) (body : Interrupt → B.Action β)
    (tl : Timeline B.signature K.World) :
    Comes K (Interrupt.within 0 signal body).outcome tl
      [⟨.newToken signal, tl.tokens.count⟩, ⟨.newToken none, (tl.tokens.make signal).2.count⟩]
      (body ⟨tl.tokens.count, (tl.tokens.make signal).2.count, none, 0⟩).outcome
      { tl with tokens := Keeping.withTwo tl.tokens signal } :=
  comes_perform rfl (comes_perform rfl (.stays _ _))

/-- The tokens of an operation with a time limit. -/
def withThree (tokens : Tokens) (signal : Option Token) : Tokens :=
  ((Keeping.withTwo tokens signal).make none).2

/-- What may interrupt an operation with a time limit that begins. -/
def Interrupt.limited (timeout : Nat) (signal : Option Token) (tl : Timeline B.signature K.World) :
    Interrupt :=
  ⟨tl.tokens.count, (tl.tokens.make signal).2.count, some (tl.clock + timeout), timeout⟩

/-- An operation with a time limit makes three tokens, has somebody wait for the deadline, and begins. -/
theorem comes_limited {timeout : Nat} (hlimited : timeout ≠ 0) (signal : Option Token)
    (body : Interrupt → B.Action β) (tl : Timeline B.signature K.World) :
    Comes K (Interrupt.within timeout signal body).outcome tl
      [⟨.newToken signal, tl.tokens.count⟩, ⟨.newToken none, (tl.tokens.make signal).2.count⟩,
        ⟨.clock, tl.clock⟩, ⟨.newToken none, (Keeping.withTwo tl.tokens signal).count⟩,
        ⟨.fork (.expire (.limited timeout signal tl) (Keeping.withTwo tl.tokens signal).count), ()⟩]
      (do
        let outcome ← ((body (.limited timeout signal tl)).protect
          [.cancel (Keeping.withTwo tl.tokens signal).count]).attempt
        Action.cancel (Keeping.withTwo tl.tokens signal).count
        Action.ofExcept outcome : B.Action β).outcome
      (Timeline.fork K { tl with tokens := withThree tl.tokens signal }
        (.expire (.limited timeout signal tl) (Keeping.withTwo tl.tokens signal).count)) := by
  refine comes_perform rfl (comes_perform rfl ?_)
  rw [if_neg hlimited]
  exact comes_perform rfl (comes_perform rfl (comes_perform rfl (.stays _ _)))

/-- An operation that begins among strangers answers for nothing yet. -/
theorem company_alone {tl : Timeline B.signature K.World} (hroot : root < tl.tokens.count)
    {strangers : Multiset (B.Task Unit)} (hstrangers : ∀ p ∈ strangers, Stranger foreign p)
    (hbag : tl.bag ≤ strangers) : Company root mild foreign tl 0 0 where
  entrusted := ⟨hroot, fun _ ht => absurd ht (Multiset.notMem_zero _),
    fun _ ht => absurd ht (Multiset.notMem_zero _), Multiset.nodup_zero⟩
  bag := ⟨strangers, hstrangers, hbag.trans (zero_add strangers).ge⟩
  terms _ hx := absurd hx (Multiset.notMem_zero _)
  busy _ hx := absurd hx (Multiset.notMem_zero _)
  resumes _ hx := absurd hx (Multiset.notMem_zero _)
  since _ hx := absurd hx (Multiset.notMem_zero _)

/-- An operation's token is made under the signal. -/
theorem rooted_make {ts : Tokens} (hf : ts.Forest) (hsignal : ∀ s ∈ signal, s < ts.count) :
    Rooted signal ts.count (ts.make signal).2 where
  forest := hf.make signal
  made := by
    rw [Tokens.count_make]
    exact Nat.lt_succ_self _
  signalled := by
    rintro s rfl
    have hs := hsignal s rfl
    exact ⟨hs, Tokens.obeys_made hf (Tokens.obeys_self hs) hs⟩

/-- More tokens may be made. -/
theorem Rooted.make {ts : Tokens} (h : Rooted signal root ts) (parent : Option Token) :
    Rooted signal root (ts.make parent).2 where
  forest := h.forest.make parent
  made := by
    rw [Tokens.count_make]
    exact Nat.lt_succ_of_lt h.made
  signalled := h.signalled.inherits (inherits_make h.forest h.made parent)

section Opens

variable {op : Operation} {start : Timeline B.signature K.World}
  {f : Except Error (Option B.Handle) → B.Task (Except Error β)} {strangers : Multiset (B.Task Unit)}

/-- Without a time limit a locator that is run makes the operation's token first, and then carries the
operation out. -/
theorem opens_unlimited (hK : Employs K b mild) (hzero : l.options.timeout = 0)
    (hf : ∀ {body : B.Action (Option B.Handle)} {st : Stand},
      Complies (.leading start.tokens.count mild late) st body →
      Yields (.leading start.tokens.count mild late) (fun _ _ => True) (Activity.bind body.outcome f) st)
    (hrooted : Rooted signal start.tokens.count (Keeping.withTwo start.tokens signal))
    (hstrangers : ∀ p ∈ strangers, Stranger foreign p) (hbag : start.bag ≤ strangers)
    (hlate : ∀ time, start.clock + retryDelay * b.patience ≤ time → late time) :
    ∃ said, said.head? = some ⟨.newToken signal, start.tokens.count⟩ ∧
      Opens K (Activity.bind (l.run b op signal).outcome f) start signal start.tokens.count mild foreign late
        said := by
  have hlooks : b.Looks (Terms.leading start.tokens.count mild late : Terms B).mild := hK.looks
  have hcomes := (comes_unlimited (K := K) signal (fun i => l.attempts b op i b.patience) start).bind f
  have hrun : l.run b op signal = Interrupt.within 0 signal fun i => l.attempts b op i b.patience := by
    unfold Locator.run turns
    rw [hzero]
    rfl
  rw [← hrun] at hcomes
  obtain ⟨sight, hsight, htells⟩ := exists_tells (Keeping.withTwo start.tokens signal) start.tokens.count
  refine ⟨_, rfl, ⟨?_, _, _, 0, ⟨sight, 0, start.clock⟩, hcomes, hrooted,
    company_alone hrooted.made hstrangers hbag, htells, le_rfl, hf ?_⟩⟩
  · simp only [List.forall_mem_cons]
    exact ⟨trivial, trivial, nofun⟩
  · exact complies_attempts hlooks rfl l op hsight fun time htime => Or.inl (hlate time htime)

/-- With a time limit it also has somebody wait for the deadline before. -/
theorem opens_limited (hK : Employs K b mild) (hlimited : l.options.timeout ≠ 0)
    (hf : ∀ {body : B.Action (Option B.Handle)} {st : Stand},
      Complies (.leading start.tokens.count mild late) st body →
      Yields (.leading start.tokens.count mild late) (fun _ _ => True) (Activity.bind body.outcome f) st)
    (hrooted : Rooted signal start.tokens.count (withThree start.tokens signal))
    (hstrangers : ∀ p ∈ strangers, Stranger foreign p) (hbag : start.bag ≤ strangers) :
    ∃ said, said.head? = some ⟨.newToken signal, start.tokens.count⟩ ∧
      Opens K (Activity.bind (l.run b op signal).outcome f) start signal start.tokens.count mild foreign late
        said := by
  have hcomes := (comes_limited (K := K) hlimited signal
    (fun i => l.attempts b op i (turns b.patience l.options.timeout retryDelay)) start).bind f
  set T : Terms B := .leading start.tokens.count mild late
  set i : Interrupt := .limited l.options.timeout signal start
  set ended : Token := (Keeping.withTwo start.tokens signal).count
  set named : Timeline B.signature K.World := { start with tokens := withThree start.tokens signal }
  have halone : Company start.tokens.count mild foreign named 0 (0 + 0) := by
    rw [zero_add]
    exact company_alone hrooted.made hstrangers hbag
  have hcompany : Company start.tokens.count mild foreign (named.fork K (.expire i ended))
      (.fresh start.tokens.count start.tokens.count mild (K.start (.expire i ended)) ::ₘ 0) 0 :=
    halone.join ((congrArg (· + 0) (if_pos rfl)).trans (add_zero _)) (bag_fork named _) rfl rfl
      ⟨rfl, rfl⟩ (fun _ _ => id) (resumes_expire hK (i := i) rfl ended _) (Nat.zero_le _)
  obtain ⟨sight, hsight, htells⟩ := exists_tells (withThree start.tokens signal) start.tokens.count
  refine ⟨_, rfl, ⟨?_, _, _, _, ⟨sight, 0, start.clock⟩, hcomes, hrooted, hcompany, htells, le_rfl,
    hf ?_⟩⟩
  · simp only [List.forall_mem_cons]
    exact ⟨trivial, trivial, trivial, trivial, trivial, nofun⟩
  · have hlooks : b.Looks (T.within [.cancel ended]).mild := hK.looks
    have hattempts : Complies (T.within [.cancel ended]) ⟨sight, 0, start.clock⟩
        (l.attempts b op i (turns b.patience l.options.timeout retryDelay)) :=
      complies_attempts hlooks rfl l op hsight fun _ _ => Or.inr ⟨ended, rfl⟩
    exact (Complies.attempt (.protect hattempts)).bind fun r after honward =>
      .cancel honward.there fun last hlast => .ofExcept hlast.there

/-- What begins with running a locator makes the operation's token first, and then carries the operation
out. -/
theorem exists_opens (hK : Employs K b mild) {a : B.Action β}
    (ha : Continues (.leading start.tokens.count mild late) (l.run b op signal) a)
    (hforest : start.tokens.Forest) (hsignal : ∀ s ∈ signal, s < start.tokens.count)
    (hstrangers : ∀ p ∈ strangers, Stranger foreign p) (hbag : start.bag ≤ strangers)
    (hlate : l.options.timeout = 0 →
      ∀ time, start.clock + retryDelay * b.patience ≤ time → late time) :
    ∃ said, said.head? = some ⟨.newToken signal, start.tokens.count⟩ ∧
      Opens K a.outcome start signal start.tokens.count mild foreign late said := by
  obtain ⟨f, hf, hyields⟩ := ha
  rw [hf]
  have hrooted : Rooted signal start.tokens.count (Keeping.withTwo start.tokens signal) :=
    (rooted_make hforest hsignal).make none
  -- whatever the attempts come to, what follows yields
  have hfollowed {body : B.Action (Option B.Handle)} {st : Stand}
      (hbody : Complies (.leading start.tokens.count mild late) st body) :
      Yields (.leading start.tokens.count mild late) (fun _ _ => True) (Activity.bind body.outcome f) st :=
    yields_bind (hbody.mono fun after r honward => (hyields r after honward.there).mono fun _ _ _ => trivial)
  by_cases hzero : l.options.timeout = 0
  · exact opens_unlimited hK hzero hfollowed hrooted hstrangers hbag (hlate hzero)
  · exact opens_limited hK hzero hfollowed (hrooted.make none) hstrangers hbag

end Opens

end Opening

/-! ### At rest -/

/-- Whoever cannot go on under a cancelled token waits for a race, unless it may wait for good. -/
theorem Resumes.take_or_idle {T : Terms B} {st : Stand} {tl : Timeline B.signature K.World}
    {r : Request B.signature} {ws : List Token} {duties : List (Duty B.signature)}
    {next : r.Answer → B.Task β} {stop : (t : Token) → t ∈ ws → B.Task β}
    (h : Resumes K T (.ask r ws duties next stop) st)
    (hc : tl.tokens.isCancelled T.own = true) (hstuck : Stuck K tl r ws) :
    ws = [] ∧ ((∃ inbox, r = .take inbox) ∨ r = .forever ∧ T.idle (duties ++ T.around) st.since) := by
  have hyields := h tl .cancelled nofun hc
  have hquiet : ws.find? tl.isCancelled = none :=
    List.find?_eq_none.mpr fun t ht => Bool.eq_false_iff.mp (hstuck.1 t ht)
  rw [Timeline.onward_of_find_none hquiet] at hyields
  obtain ⟨-, hallows, -⟩ := hyields
  have hwaits := Activity.waits_of_perform hstuck.2
  cases r with
  | sleepUntil time => exact absurd hallows.1 nofun
  | forever =>
    obtain ⟨hws, hidle⟩ := hallows.resolve_left fun hlive => absurd hlive.1 nofun
    exact ⟨hws, Or.inr ⟨rfl, hidle⟩⟩
  | take inbox => exact ⟨hallows.1, Or.inl ⟨inbox, rfl⟩⟩
  | _ => exact absurd hwaits Bool.false_ne_true

/-- Nothing of the operation is left. -/
structure Over (foreign : B.Query → Prop) (c : Crowd K Unit α) : Prop where
  foreground : c.running = []
  background : ∀ task ∈ c.timeline.tasks, Stranger foreign task.activity

section Rest

variable {b : Browser B} {C : Custody K b} {made : Nat} {base : Multiset C.Charge}
  {kept : α → Multiset C.Charge} {Ends : Unit → Nat → α → Timeline B.signature K.World → Prop}
  {root : Token} {mild foreign : B.Query → Prop} {late : Nat → Prop} {fellows : Multiset (Fellow B)}
  {others : Multiset Token} {tl : Timeline B.signature K.World} {share : Share C.Charge} {c : Crowd K Unit α}

/-- Nothing interrupts the wait that goes with the share. -/
def Unwatched (role : Activity.Role) (tl : Timeline B.signature K.World) (share : Share C.Charge) : Prop :=
  ∃ r, share.Parked (B := B) role r [] ∧ Stuck K tl r []

/-- In the background, whoever cannot go on any more is a stranger, or something is due to it. -/
theorem Company.unwatched (hc : Company root mild foreign tl fellows others)
    (hroot : tl.tokens.isCancelled root = true) {task : Activity.Task B.signature} (hmem : task ∈ tl.tasks)
    (hhalted : Activity.Halted (keeping C made base) .background tl share task.activity) :
    Unwatched .background tl share ∧ (Stranger foreign task.activity ∨ share.due.isSome = true) := by
  obtain ⟨strangers, hstrangers, hle⟩ := hc.bag
  have hbag : task.activity ∈ tl.bag :=
    Multiset.mem_coe.mpr (List.mem_map_of_mem (f := fun t : Activity.Task B.signature => t.activity) hmem)
  revert hhalted hbag
  generalize task.activity = p
  intro hhalted hbag
  cases p with
  | done a => exact absurd hhalted id
  | ask r ws duties next stop =>
    obtain ⟨hparked, hstuck⟩ := hhalted
    rcases Multiset.mem_add.mp (Multiset.mem_of_le hle hbag) with hfellow | hstranger
    · obtain ⟨x, hx, hactivity⟩ := Multiset.mem_map.mp hfellow
      have hown := (hc.obeys_fellow hx).isCancelled hroot
      have hresumes := hc.resumes x hx
      rw [hactivity] at hresumes
      obtain ⟨rfl, hrest⟩ := hresumes.take_or_idle hown hstuck
      refine ⟨⟨r, hparked.1, hstuck⟩, Or.inr ?_⟩
      obtain ⟨inbox, rfl⟩ := hrest.resolve_right fun hidle => hc.busy x hx _ _ hidle.2
      exact hparked.1.takes inbox rfl
    · have hstranger := hstrangers _ hstranger
      obtain rfl : ws = [] := hstranger.watched
      exact ⟨⟨r, hparked.1, hstuck⟩, Or.inl hstranger⟩

/-- Whoever carries the operation out, when it cannot go on any more, waits for a race. -/
theorem unwatched_leading {p : B.Task α} {st : Stand} (hresumes : Resumes K (.leading root mild late) p st)
    (hlate : ¬ late st.since) (hroot : tl.tokens.isCancelled root = true) (hproper : share.Proper)
    (hhalted : Activity.Halted (keeping C made base) .foreground tl share p) :
    Unwatched .foreground tl share ∧ share.due.isSome = true := by
  cases p with
  | done a => exact absurd hhalted id
  | ask r ws duties next stop =>
    obtain ⟨⟨hparked, hdischarged⟩, hstuck⟩ := hhalted
    obtain ⟨rfl, hrest⟩ := hresumes.take_or_idle hroot hstuck
    refine ⟨⟨r, hparked, hstuck⟩, ?_⟩
    rcases hrest with ⟨inbox, rfl⟩ | ⟨rfl, hidle⟩
    · exact hparked.takes inbox rfl
    rcases hidle with hover | ⟨ended, hduties⟩
    · exact absurd hover hlate
    -- who has to tell the end of an operation sits under its token, and would watch it
    rw [Terms.leading, List.append_nil] at hduties
    have hduty := hdischarged rfl
    rw [hduties] at hduty
    cases hduty with
    | ended he =>
      exact (hparked.seat _ (hproper.errand _ he)).resolve_left List.not_mem_nil

/-- Where nobody can go on, an operation whose token is cancelled is over. -/
theorem UnderWay.over_of_resting (h : UnderWay root mild foreign late c)
    (hkept : Kept (keeping C made base) (Keeping.Keeps kept) Ends c) (hrest : c.Resting)
    (hroot : c.timeline.tokens.isCancelled root = true)
    (hlate : ∀ time ≤ c.timeline.clock, ¬ late time) : Over foreign c := by
  obtain ⟨shares, hb, hshares, htasks, hmembers⟩ := hkept.resting hrest
  have hmain : ∀ m ∈ c.running, ∀ share ∈ shares,
      Activity.Halted (keeping C made base) .foreground c.timeline share m.activity →
      Unwatched .foreground c.timeline share ∧ share.due.isSome = true := by
    intro m hm share hshare hhalted
    cases h with
    | ended hrunning => exact absurd (hrunning ▸ hm) List.not_mem_nil
    | runs hrunning hcompany hresumes hsince =>
      rw [hrunning] at hm
      rw [List.mem_singleton.mp hm] at hhalted
      have hproper := Keeping.Balanced.proper hb share hshare
      exact unwatched_leading hresumes (hlate _ hsince) hroot hproper hhalted
  obtain ⟨fellows, others, hcompany⟩ :
      ∃ fellows others, Company root mild foreign c.timeline fellows others := by
    cases h with
    | runs _ hcompany => exact ⟨_, _, hcompany⟩
    | ended _ hcompany => exact ⟨_, _, hcompany⟩
  -- whom nothing could interrupt does not wait for a race, so nothing is due to anybody
  have hnone : ∀ share ∈ shares, share.due = none := by
    refine fun share hshare => Keeping.Balanced.due_eq_none hb (fun x hx => ?_) hshare
    rcases hshares x hx with ⟨a, hkeeps⟩ | ⟨task, hmem, hhalted⟩ | ⟨m, hm, hhalted⟩
    · exact Or.inl ⟨_, hkeeps⟩
    · exact Or.inr ⟨_, (hcompany.unwatched hroot hmem hhalted).1⟩
    · exact Or.inr ⟨_, (hmain m hm x hx hhalted).1⟩
  refine ⟨List.eq_nil_iff_forall_not_mem.mpr fun m hm => ?_, fun task hmem => ?_⟩
  · obtain ⟨share, hshare, hhalted⟩ := hmembers m hm
    have hdue := (hmain m hm share hshare hhalted).2
    rw [hnone share hshare] at hdue
    exact absurd hdue Bool.false_ne_true
  · obtain ⟨share, hshare, hhalted⟩ := htasks task hmem
    refine (hcompany.unwatched hroot hmem hhalted).2.resolve_right fun hdue => ?_
    rw [hnone share hshare] at hdue
    exact absurd hdue Bool.false_ne_true

end Rest

end Wayfind
