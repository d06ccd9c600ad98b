/-
The memory of a page stays true, operation by operation.

Operations are done one after another, and the peer answers as it likes.  Every call goes
to the global object of the living context, and neither this nor the utility bundle is
asked for twice in one life.  A function that is waited for is called with its bindings
installed, but for one case: when to release a result tells that the context is dead, the
wait goes on in the next one, and installs nothing there (`coherent_of_session`,
`calls_unbound`).
-/
import Wayfind.Proofs.Activity.Solo
import Wayfind.Proofs.Remote.Memory

namespace Wayfind.Remote

open Activity (Prompt Solo Timeline prompt_andThen prompt_attempt prompt_ofExcept)
open PageSide (Action)
open Protocol (RemoteObject Evaluation)

variable {P : Peer} {patience : Nat} {source script : String} {C : List (Instant P) → Prop}
  {x y z : Recorded P} {α β : Type}

/-- At this moment all is proper, and when the function is called the condition holds. -/
def Meets (source script : String) (C : List (Instant P) → Prop) (before : List (Instant P))
    (i : Instant P) : Prop :=
  Proper source before i ∧ (i.calls script = true → C before)

/-- What is remembered is what the record shows, and all moments were as they should be. -/
structure Coherent (source script : String) (C : List (Instant P) → Prop) (x : Recorded P) : Prop where
  remembers : Remembers source x
  throughout : Throughout (Meets source script C) x.2

/-- The world is the same or a later one, in the same life. -/
def Onward (x y : Recorded P) : Prop := ∃ more, y.2 = x.2 ++ more ∧ ∀ i ∈ more, i.tellsDeath = false

theorem Onward.refl (x : Recorded P) : Onward x x := ⟨[], (List.append_nil x.2).symm, List.forall_mem_nil _⟩

theorem Onward.trans (h : Onward x y) (h' : Onward y z) : Onward x z := by
  obtain ⟨more, hmore, hlife⟩ := h
  obtain ⟨more', hmore', hlife'⟩ := h'
  refine ⟨more ++ more', by rw [hmore', hmore, List.append_assoc], fun i hi => ?_⟩
  exact (List.mem_append.mp hi).elim (hlife i) (hlife' i)

theorem onward_tell {q : Query} (h : Instant.tellsDeath ⟨x.1, q⟩ = false) : Onward x (x.tell q) := by
  refine ⟨[⟨x.1, q⟩], rfl, fun i hi => ?_⟩
  rw [List.mem_singleton.mp hi]
  exact h

theorem Onward.life (h : Onward x y) : ∃ more, lifetime y.2 = lifetime x.2 ++ more := by
  obtain ⟨more, hmore, hlife⟩ := h
  exact ⟨more, by rw [hmore]; exact since_append hlife⟩

theorem Onward.isInstalled {name : String} (h : Onward x y)
    (hname : isInstalled name (lifetime x.2) = true) : isInstalled name (lifetime y.2) = true := by
  obtain ⟨more, hmore⟩ := h.life
  rw [hmore]
  exact isInstalled_append hname more

theorem Onward.mem {q : Query} (h : Onward (x.tell q) y) (hlife : Instant.tellsDeath ⟨x.1, q⟩ = false) :
    ⟨x.1, q⟩ ∈ lifetime y.2 := by
  obtain ⟨more, hmore⟩ := h.life
  have htell : lifetime (x.tell q).2 = lifetime x.2 ++ [⟨x.1, q⟩] := since_concat_of hlife x.2
  rw [hmore, htell]
  simp

/-- A moment that is no call. -/
theorem Throughout.tell (h : Throughout (Meets source script C) x.2) {q : Query}
    (htarget : Instant.target? ⟨x.1, q⟩ = none) (hcalls : Instant.calls script ⟨x.1, q⟩ = false)
    (hsingle : Single source (x.tell q).2) : Throughout (Meets source script C) (x.tell q).2 :=
  h.concat ⟨⟨fun _ hobject => absurd (htarget.symm.trans hobject) nofun, hsingle⟩,
    fun hc => absurd (hcalls.symm.trans hc) Bool.false_ne_true⟩

theorem Coherent.tell (h : Coherent source script C x) {q : Query}
    (htarget : Instant.target? ⟨x.1, q⟩ = none) (hcalls : Instant.calls script ⟨x.1, q⟩ = false)
    (hr : Remembers source (x.tell q)) : Coherent source script C (x.tell q) :=
  ⟨hr, h.throughout.tell htarget hcalls hr.single⟩

/-! ### What actions lead to -/

/-- The action keeps the memory true; after success the context lives on, and what is said of the
result holds. -/
def Leads (P : Peer) (patience : Nat) (source script : String) (C : List (Instant P) → Prop)
    (x : Recorded P) (a : side.Action α) (R : α → Recorded P → Prop) : Prop :=
  Prompt (recording P patience) (fun y => Throughout (Meets source script C) y.2)
    (fun r y => Coherent source script C y ∧ ∀ v, r = .ok v → Onward x y ∧ R v y) a.outcome x

section Rules

variable {R : α → Recorded P → Prop} {R' : β → Recorded P → Prop} {a : side.Action α}

theorem leads_pure {v : α} (h : Coherent source script C x) (hR : R v x) :
    Leads P patience source script C x (pure v) R := by
  refine ⟨h, fun v' hv => ?_⟩
  obtain rfl := Except.ok.inj hv
  exact ⟨Onward.refl x, hR⟩

theorem leads_throw (h : Coherent source script C x) (e : Error) :
    Leads P patience source script C x (throw e) R :=
  ⟨h, nofun⟩

theorem Leads.bind {f : α → side.Action β} (h : Leads P patience source script C x a R)
    (hf : ∀ v y, Coherent source script C y → Onward x y → R v y →
      Leads P patience source script C y (f v) R') :
    Leads P patience source script C x (a >>= f) R' := by
  refine prompt_andThen.mpr (h.mono fun r y hy => ?_)
  obtain ⟨hcoherent, hok⟩ := hy
  cases r with
  | ok v =>
    obtain ⟨honward, hR⟩ := hok v rfl
    refine (hf v y hcoherent honward hR).mono fun r z hz => ⟨hz.1, fun v' hv' => ?_⟩
    obtain ⟨honward', hR'⟩ := hz.2 v' hv'
    exact ⟨honward.trans honward', hR'⟩
  | error e => exact ⟨hcoherent, nofun⟩

theorem Leads.mono {R' : α → Recorded P → Prop} (h : Leads P patience source script C x a R)
    (hR : ∀ v y, Coherent source script C y → Onward x y → R v y → R' v y) :
    Leads P patience source script C x a R' :=
  Prompt.mono h fun _ y hy =>
    ⟨hy.1, fun v hv => ⟨(hy.2 v hv).1, hR v y hy.1 (hy.2 v hv).1 (hy.2 v hv).2⟩⟩

/-- A question that sets nothing off and tells of no dead context. -/
theorem leads_ask {q : Query} {f : q.Answer → side.Action β} (hquiet : q.isQuiet = true)
    (hlife : Instant.tellsDeath ⟨x.1, q⟩ = false)
    (hf : Leads P patience source script C (x.tell q) (f (x.1.answer q).1) R') :
    Leads P patience source script C x (ask q >>= f) R' := by
  refine (prompt_ask hquiet).mpr (Prompt.mono hf fun r z hz => ⟨hz.1, fun v hv => ?_⟩)
  exact ⟨(onward_tell hlife).trans (hz.2 v hv).1, (hz.2 v hv).2⟩

/-- A question that changes nothing that is remembered. -/
theorem leads_passive {q : Query} {f : q.Answer → side.Action β} (h : Coherent source script C x)
    (hq : q.isPassive = true) (hquiet : q.isQuiet = true)
    (hf : ∀ y, Coherent source script C y → y = x.tell q →
      Leads P patience source script C y (f (x.1.answer q).1) R') :
    Leads P patience source script C x (ask q >>= f) R' := by
  have hnone : Instant.tellsDeath ⟨x.1, q⟩ = false ∧ Instant.target? ⟨x.1, q⟩ = none ∧
      Instant.calls script ⟨x.1, q⟩ = false := by
    cases q with
    | command => exact absurd hq nofun
    | _ => exact ⟨rfl, rfl, rfl⟩
  obtain ⟨hlife, htarget, hcalls⟩ := hnone
  exact leads_ask hquiet hlife (hf _ (h.tell htarget hcalls (h.remembers.passive hq)) rfl)

/-- The same where the answer is known. -/
theorem leads_known {q : Query} {a : q.Answer} {f : q.Answer → side.Action β}
    (h : Coherent source script C x) (hq : q.isPassive = true) (hquiet : q.isQuiet = true)
    (ha : (x.1.answer q).1 = a) (hf : ∀ y, Coherent source script C y → y = x.tell q →
      Leads P patience source script C y (f a) R') :
    Leads P patience source script C x (ask q >>= f) R' :=
  leads_passive h hq hquiet fun y hy htell => ha ▸ hf y hy htell

theorem leads_read (reader : Json.Reader α) (reply : Json) (h : Coherent source script C x) :
    Leads P patience source script C x (read reader reply) fun v y =>
      y = x ∧ reader.ofJson? reply = some v := by
  unfold read
  split
  · rename_i v hv
    exact leads_pure h ⟨rfl, hv⟩
  · exact leads_throw h _

/-- Looking at a list of arguments, one after another. -/
theorem leads_mapM {f : α → side.Action β}
    (hf : ∀ v y, Coherent source script C y → Leads P patience source script C y (f v) fun _ _ => True)
    (vs : List α) (h : Coherent source script C x) :
    Leads P patience source script C x (vs.mapM f) fun _ _ => True := by
  induction vs generalizing x with
  | nil => exact leads_pure h trivial
  | cons v rest ih =>
    rw [List.mapM_cons]
    exact (hf v x h).bind fun b y hy _ _ => (ih hy).bind fun bs z hz _ _ => leads_pure hz trivial

end Rules

section Commands

variable (hP : ∀ method params s, (P.command method params s).2.1 = [])
include hP

/-- A command, and what comes of it. -/
theorem prompt_commandThroughout {Q : Except Error Json → Recorded P → Prop} {method : String}
    {params : Json} (hthroughout : Throughout (Meets source script C) (x.tell (.command method params)).2)
    (hQ : Q (x.reply method params) (x.tell (.command method params))) :
    Prompt (recording P patience) (fun y => Throughout (Meets source script C) y.2) Q
      (command method params).outcome x :=
  prompt_command ⟨hP, fun _ _ _ _ => hthroughout⟩ hQ

/-- An expression is evaluated, and something is done with the evaluation if there is one. -/
theorem leads_evaluate {R : β → Recorded P → Prop} {doc : Json} {f : Evaluation → side.Action β}
    (hthroughout : Throughout (Meets source script C) (x.tell (.command "Runtime.evaluate" doc)).2)
    (hnone : (x.reply "Runtime.evaluate" doc).toOption.bind Evaluation.reader.ofJson? = none →
      Coherent source script C (x.tell (.command "Runtime.evaluate" doc)))
    (hsome : ∀ v, (x.reply "Runtime.evaluate" doc).toOption.bind Evaluation.reader.ofJson? = some v →
      Leads P patience source script C (x.tell (.command "Runtime.evaluate" doc)) (f v) R) :
    Leads P patience source script C x (do
      let reply ← command "Runtime.evaluate" doc
      let evaluation ← read Evaluation.reader reply
      f evaluation) R := by
  refine prompt_andThen.mpr (prompt_commandThroughout hP hthroughout ?_)
  rcases hreply : x.reply "Runtime.evaluate" doc with e | reply
  · exact ⟨hnone (by rw [hreply]; rfl), nofun⟩
  · rcases hread : Evaluation.reader.ofJson? reply with _ | v
    · have hcoherent := hnone (by rw [hreply]; exact hread)
      refine prompt_andThen.mpr ?_
      unfold read
      rw [hread]
      exact ⟨hcoherent, nofun⟩
    · have hlead := Prompt.mono (hsome v (by rw [hreply]; exact hread)) fun r y hy =>
        (⟨hy.1, fun b hb =>
          ⟨(onward_tell (Instant.tellsDeath_evaluate _ _)).trans (hy.2 b hb).1, (hy.2 b hb).2⟩⟩ :
          Coherent source script C y ∧ ∀ b, r = .ok b → Onward x y ∧ R b y)
      refine prompt_andThen.mpr ?_
      unfold read
      rw [hread]
      exact hlead

/-- The reference to the global object is remembered once it is known. -/
theorem leads_globalId (h : Coherent source script C x) :
    Leads P patience source script C x globalId fun id y => y.1.global = some id := by
  unfold globalId
  rcases hknown : x.1.global with _ | id
  · refine leads_known h rfl rfl hknown fun y hy htell => ?_
    have hnone : y.1.global = none := htell ▸ hknown
    let doc := Instant.globalExpression
    have hutility : Instant.utilityGiven source ⟨y.1, .command "Runtime.evaluate" doc⟩ = none :=
      Instant.utilityGiven_none (Instant.evaluated_worded nofun)
    have hgiven : Instant.globalGiven ⟨y.1, .command "Runtime.evaluate" doc⟩ =
        ((y.reply "Runtime.evaluate" doc).toOption.bind Evaluation.reader.ofJson?).bind
          (·.result.objectId) := by
      have hevaluated : Instant.evaluated? "globalThis" false ⟨y.1, .command "Runtime.evaluate" doc⟩ =
        (y.reply "Runtime.evaluate" doc).toOption.bind Evaluation.reader.ofJson? :=
        Instant.evaluated_eq rfl rfl
      rw [Instant.globalGiven, hevaluated]
    -- without the global object in the reply nothing has changed
    have hsame (hgiven : Instant.globalGiven ⟨y.1, .command "Runtime.evaluate" doc⟩ = none) :
        Coherent source script C (y.tell (.command "Runtime.evaluate" doc)) :=
      hy.tell rfl rfl (hy.remembers.command (Instant.tellsDeath_evaluate _ _) hgiven hutility)
    have hnew {id : String} (hgiven : Instant.globalGiven ⟨y.1, .command "Runtime.evaluate" doc⟩ = some id) :=
      hy.remembers.rememberGlobal hnone hgiven hutility (Instant.losesUtility_evaluate _ _)
    have hthroughout : Throughout (Meets source script C) (y.tell (.command "Runtime.evaluate" doc)).2 := by
      rcases hid : Instant.globalGiven ⟨y.1, .command "Runtime.evaluate" doc⟩ with _ | id
      · exact (hsame hid).throughout
      · exact hy.throughout.tell rfl rfl (hnew hid).1
    refine leads_evaluate hP hthroughout (fun hno => hsame (by rw [hgiven, hno]; rfl)) fun v hv => ?_
    rw [hv] at hgiven
    rcases hid : v.result.objectId with _ | id
    · exact leads_throw (hsame (hgiven.trans hid)) _
    · obtain ⟨-, hremembers⟩ := hnew (hgiven.trans hid)
      have hdone : Coherent source script C ((y.tell (.command "Runtime.evaluate" doc)).tell
          (.rememberGlobal id)) := ⟨hremembers, hthroughout.tell rfl rfl hremembers.single⟩
      exact leads_ask rfl rfl (leads_pure hdone rfl)
  · exact leads_known h rfl rfl hknown fun y hy htell => leads_pure hy (htell ▸ hknown)

/-- A command that may tell of a dead context; then everything is forgotten. -/
theorem prompt_sendCoherent {method : String} {doc : Json} (h : Coherent source script C x)
    (hmethod : method ≠ "Runtime.evaluate")
    (htarget : ∀ object, Instant.target? ⟨x.1, .command method doc⟩ = some object →
      ∃ ref, x.1.global = some ref ∧ object = .string ref)
    (hcalls : Instant.calls script ⟨x.1, .command method doc⟩ = true → C x.2) :
    Prompt (recording P patience) (fun y => Throughout (Meets source script C) y.2)
      (fun r y => Coherent source script C y ∧ r = x.reply method doc ∧
        (y = x.tell (.command method doc) ∧ Instant.tellsDeath ⟨x.1, .command method doc⟩ = false ∨
          y = (x.tell (.command method doc)).tell .forget ∧
            Instant.tellsDeath ⟨x.1, .command method doc⟩ = true ∧ r.isOk = false))
      (send method doc).outcome x := by
  let y := x.tell (.command method doc)
  have hglobal : Instant.globalGiven ⟨x.1, .command method doc⟩ = none :=
    Instant.globalGiven_none (Instant.evaluated_other hmethod)
  have hutility : Instant.utilityGiven source ⟨x.1, .command method doc⟩ = none :=
    Instant.utilityGiven_none (Instant.evaluated_other hmethod)
  have hproper : Proper source x.2 ⟨x.1, .command method doc⟩ := by
    refine ⟨fun object hobject => ?_, h.remembers.single.concat hglobal hutility⟩
    obtain ⟨ref, href, hstring⟩ := htarget object hobject
    refine ⟨ref, ?_, hstring⟩
    rw [h.remembers.global, href]
    rfl
  have hthroughout : Throughout (Meets source script C) y.2 := h.throughout.concat ⟨hproper, hcalls⟩
  have hkept (hlife : Instant.tellsDeath ⟨x.1, .command method doc⟩ = false) : Coherent source script C y :=
    ⟨h.remembers.command hlife hglobal hutility, hthroughout⟩
  have hforgot (hdeath : Instant.tellsDeath ⟨x.1, .command method doc⟩ = true) :
      Coherent source script C (y.tell .forget) := by
    have hlost : Instant.losesUtility ⟨x.1, .command method doc⟩ = true := by
      simp only [Instant.losesUtility, hdeath, Bool.true_or]
    have hremembers : Remembers source (y.tell .forget) := by
      refine Remembers.forget h.remembers.bundle ?_ ?_
      · exact congrArg (List.filterMap Instant.globalGiven) (since_concat_end hdeath x.2)
      · exact congrArg (List.filterMap (Instant.utilityGiven source)) (since_concat_end hlost x.2)
    exact ⟨hremembers, hthroughout.tell rfl rfl hremembers.single⟩
  unfold send
  refine prompt_attempt.mpr (prompt_commandThroughout hP hthroughout ?_)
  rcases hreply : x.reply method doc with e | reply
  · have hdeath : Instant.tellsDeath ⟨x.1, .command method doc⟩ = isStale e := by
      have houtcome : (P.command method doc x.1.peer).1.outcome = .error e := hreply
      simp only [Instant.tellsDeath, Instant.command?, houtcome, bne_iff_ne.mpr hmethod, Bool.true_and]
    dsimp only
    rcases hstale : isStale e with _ | _
    · exact ⟨hkept (hdeath.trans hstale), rfl, .inl ⟨rfl, hdeath.trans hstale⟩⟩
    · exact (prompt_ask rfl).mpr ⟨hforgot (hdeath.trans hstale), rfl,
        .inr ⟨rfl, hdeath.trans hstale, rfl⟩⟩
  · have hlife : Instant.tellsDeath ⟨x.1, .command method doc⟩ = false := by
      have houtcome : (P.command method doc x.1.peer).1.outcome = .ok reply := hreply
      simp only [Instant.tellsDeath, Instant.command?, houtcome]
    exact ⟨hkept hlife, rfl, .inl ⟨rfl, hlife⟩⟩

theorem leads_send {method : String} {doc : Json} (h : Coherent source script C x)
    (hmethod : method ≠ "Runtime.evaluate")
    (htarget : ∀ object, Instant.target? ⟨x.1, .command method doc⟩ = some object →
      ∃ ref, x.1.global = some ref ∧ object = .string ref)
    (hcalls : Instant.calls script ⟨x.1, .command method doc⟩ = true → C x.2) :
    Leads P patience source script C x (send method doc) fun reply y =>
      y = x.tell (.command method doc) ∧ x.reply method doc = .ok reply := by
  refine (prompt_sendCoherent hP h hmethod htarget hcalls).mono fun r y hy => ⟨hy.1, fun reply hreply => ?_⟩
  obtain ⟨-, hsame, ⟨rfl, hlife⟩ | ⟨-, -, hfailed⟩⟩ := hy
  · exact ⟨onward_tell hlife, rfl, hsame.symm.trans hreply⟩
  · rw [hreply] at hfailed
    exact absurd hfailed nofun

omit hP in
/-- What is no call goes to no object. -/
theorem noTarget {i : Instant P} {K : Json → Prop} (h : i.target? = none) :
    ∀ object, i.target? = some object → K object :=
  fun _ hobject => absurd (h.symm.trans hobject) nofun

omit hP in
theorem noCalls {i : Instant P} {K : Prop} (h : i.calls script = false) : i.calls script = true → K :=
  fun hc => absurd (h.symm.trans hc) Bool.false_ne_true

/-! ### Calls -/

/-- A page function is called on the global object of the living context. -/
theorem leads_callFunction {function : String} {arguments : List Json} {byValue : Bool}
    (h : Coherent source script C x) (hC : ∀ y, Onward x y → byValue = true ∨ C y.2) :
    Leads P patience source script C x (callFunction function arguments byValue) fun v y =>
      ∃ mid id reply, Onward x mid ∧
        y = mid.tell (.command "Runtime.callFunctionOn" (callParams function arguments byValue id)) ∧
        mid.reply "Runtime.callFunctionOn" (callParams function arguments byValue id) = .ok reply ∧
        Evaluation.reader.ofJson? reply = some ⟨v, none⟩ := by
  unfold callFunction
  refine (leads_globalId hP h).bind fun id mid hmid honward hglobal => ?_
  refine (leads_send hP hmid (by decide) (fun object hobject => ?_) fun hcalls => ?_).bind
    fun reply y hy _ hreply => ?_
  · exact ⟨id, hglobal, (Option.some.inj hobject).symm⟩
  · rcases hC mid honward with rfl | hC
    · have hreturn : ((callParams function arguments true id).member "returnByValue").bool? = some true := rfl
      simp only [Instant.calls, Instant.command?, hreturn, Bool.and_eq_true] at hcalls
      exact absurd hcalls.2 (by decide)
    · exact hC
  · refine (leads_read _ _ hy).bind fun v z hz _ hv => ?_
    obtain ⟨result, exception⟩ := v
    cases exception with
    | some e => exact leads_throw hz _
    | none =>
      obtain ⟨rfl, hread⟩ := hv
      exact leads_pure hz ⟨mid, id, reply, honward, hreply.1, hreply.2, hread⟩

omit hP in
theorem leads_handleArgument (handle : Handle) (h : Coherent source script C x) :
    Leads P patience source script C x (handleArgument handle) fun _ _ => True := by
  unfold handleArgument
  rcases hdisposed : x.1.isDisposed handle with _ | _
  · refine leads_known h rfl rfl hdisposed fun y hy _ => ?_
    cases handle.remote.objectId <;> exact leads_pure hy trivial
  · refine leads_known h rfl rfl hdisposed fun y hy _ => ?_
    refine (leads_throw (R := fun _ _ => True) hy .disposed).bind fun _ z hz _ _ => ?_
    cases handle.remote.objectId <;> exact leads_pure hz trivial

omit hP in
theorem leads_callArgument (arg : Argument Handle) (h : Coherent source script C x) :
    Leads P patience source script C x (callArgument arg) fun _ _ => True := by
  cases arg with
  | value v => exact leads_pure h trivial
  | undefined => exact leads_pure h trivial
  | handle handle => exact leads_handleArgument handle h

omit hP in
theorem leads_callArguments (args : List (Argument Handle)) (h : Coherent source script C x) :
    Leads P patience source script C x (args.mapM callArgument) fun _ _ => True :=
  leads_mapM (fun arg _ hy => leads_callArgument arg hy) args h

omit hP in
theorem leads_wrap (r : RemoteObject) (h : Coherent source script C x) :
    Leads P patience source script C x (wrap r) fun handle y =>
      handle = (x.1.wrap r).1 ∧ y = x.tell (.wrap r) :=
  leads_ask rfl rfl (leads_pure (h.tell rfl rfl (h.remembers.wrap r)) ⟨rfl, rfl⟩)

/-- The utility bundle is remembered once it is known. -/
theorem leads_utility (h : Coherent source script C x) :
    Leads P patience source script C x utility fun _ _ => True := by
  unfold utility
  rcases hknown : x.1.utility.filter fun h => !x.1.isDisposed h with _ | known
  · refine leads_known h rfl rfl hknown fun y hy htell => ?_
    refine leads_known hy rfl rfl hy.remembers.bundle fun z hz htell' => ?_
    have hnone : (z.1.utility.filter fun h => !z.1.isDisposed h) = none := by
      rw [htell', htell]
      exact hknown
    let doc := Instant.utilityExpression source
    have hglobal : Instant.globalGiven ⟨z.1, .command "Runtime.evaluate" doc⟩ = none :=
      Instant.globalGiven_none (Instant.evaluated_worded nofun)
    have hevaluated : Instant.evaluated? source true ⟨z.1, .command "Runtime.evaluate" doc⟩ =
        (z.reply "Runtime.evaluate" doc).toOption.bind Evaluation.reader.ofJson? :=
      Instant.evaluated_eq rfl rfl
    -- without a bundle in the reply nothing has changed
    have hsame (hgiven : Instant.utilityGiven source ⟨z.1, .command "Runtime.evaluate" doc⟩ = none) :
        Coherent source script C (z.tell (.command "Runtime.evaluate" doc)) :=
      hz.tell rfl rfl (hz.remembers.command (Instant.tellsDeath_evaluate _ _) hglobal hgiven)
    have hnew {bundle : RemoteObject}
        (hgiven : Instant.utilityGiven source ⟨z.1, .command "Runtime.evaluate" doc⟩ = some bundle) :=
      hz.remembers.rememberUtility hnone hgiven hglobal (Instant.losesUtility_evaluate _ _)
    have hthroughout : Throughout (Meets source script C) (z.tell (.command "Runtime.evaluate" doc)).2 := by
      rcases hbundle : Instant.utilityGiven source ⟨z.1, .command "Runtime.evaluate" doc⟩ with _ | bundle
      · exact (hsame hbundle).throughout
      · exact hz.throughout.tell rfl rfl (hnew hbundle).1
    refine leads_evaluate hP hthroughout (fun hno => hsame ?_) fun v hv => ?_
    · exact Instant.utilityGiven_none (hevaluated.trans hno)
    · rw [hv] at hevaluated
      obtain ⟨result, exception⟩ := v
      cases exception with
      | some e =>
        refine leads_throw (hsame ?_) _
        rw [Instant.utilityGiven, hevaluated]
      | none =>
        have hgiven : Instant.utilityGiven source ⟨z.1, .command "Runtime.evaluate" doc⟩ = some result := by
          rw [Instant.utilityGiven, hevaluated]
        obtain ⟨hsingle, hremembers⟩ := hnew hgiven
        have hwrapped : Single source ((z.tell (.command "Runtime.evaluate" doc)).tell (.wrap result)).2 :=
          hsingle.concat rfl rfl
        have hdone : Coherent source script C (((z.tell (.command "Runtime.evaluate" doc)).tell
            (.wrap result)).tell (.rememberUtility (z.1.wrap result).1)) :=
          ⟨hremembers, (hthroughout.tell rfl rfl hwrapped).tell rfl rfl hremembers.single⟩
        exact leads_ask rfl rfl (leads_ask rfl rfl (leads_pure hdone trivial))
  · exact leads_known h rfl rfl hknown fun y hy _ => leads_pure hy trivial

theorem leads_dispose (handle : Handle) (h : Coherent source script C x) :
    Leads P patience source script C x handle.dispose fun _ _ => True := by
  unfold Handle.dispose
  have hdisposed : Coherent source script C (x.tell (.dispose handle)) :=
    h.tell rfl rfl (h.remembers.dispose handle)
  refine leads_ask rfl rfl ?_
  split
  · split
    · refine (leads_send hP hdisposed (by decide) (noTarget rfl) (noCalls rfl)).bind
        fun _ z hz _ _ => leads_pure hz trivial
    · exact leads_pure hdisposed trivial
  · exact leads_pure hdisposed trivial

/-! ### Bindings -/

omit hP in
theorem tellsDeath_ok {method : String} {doc reply : Json} (h : x.reply method doc = .ok reply) :
    Instant.tellsDeath ⟨x.1, .command method doc⟩ = false := by
  have houtcome : (P.command method doc x.1.peer).1.outcome = .ok reply := h
  simp only [Instant.tellsDeath, Instant.command?, houtcome]

omit hP in
theorem adds_ok {name : String} {reply : Json}
    (h : x.reply "Runtime.addBinding" (params [("name", .string (bindingMark ++ name))]) = .ok reply) :
    Instant.adds name ⟨x.1, .command "Runtime.addBinding"
      (params [("name", .string (bindingMark ++ name))])⟩ = true := by
  have houtcome : (P.command "Runtime.addBinding" (params [("name", .string (bindingMark ++ name))])
    x.1.peer).1.outcome = .ok reply := h
  have hname : ((params [("name", .string (bindingMark ++ name))]).member "name").string? =
    some (bindingMark ++ name) := rfl
  simp only [Instant.adds, Instant.command?, houtcome, hname, beq_self_eq_true, Bool.and_true]

omit hP in
theorem wraps_ok {name id : String} {reply : Json} {result : RemoteObject}
    (h : x.reply "Runtime.callFunctionOn" (callParams Script.installBinding
      [valueArgument (.string name), valueArgument (.string (bindingMark ++ name))] true id) = .ok reply)
    (hread : Evaluation.reader.ofJson? reply = some ⟨result, none⟩) :
    Instant.wraps name ⟨x.1, .command "Runtime.callFunctionOn" (callParams Script.installBinding
      [valueArgument (.string name), valueArgument (.string (bindingMark ++ name))] true id)⟩ = true := by
  let doc := callParams Script.installBinding
    [valueArgument (.string name), valueArgument (.string (bindingMark ++ name))] true id
  have houtcome : (P.command "Runtime.callFunctionOn" doc x.1.peer).1.outcome = .ok reply := h
  have hscript : (doc.member "functionDeclaration").string? = some Script.installBinding := rfl
  have hname : (((doc.member "arguments").item 0).member "value").string? = some name := rfl
  have hraw : (((doc.member "arguments").item 1).member "value").string? = some (bindingMark ++ name) := rfl
  show Instant.wraps name ⟨x.1, .command "Runtime.callFunctionOn" doc⟩ = true
  simp only [Instant.wraps, Instant.command?, houtcome, hscript, hname, hraw, hread, Option.any_some,
    Option.isNone_none, beq_self_eq_true, Bool.and_true]

omit hP in
theorem isInstalled_of_mem {name : String} {record : List (Instant P)} {i j : Instant P} (hi : i ∈ record)
    (hadds : i.adds name = true) (hj : j ∈ record) (hwraps : j.wraps name = true) :
    isInstalled name record = true := by
  rw [isInstalled, Bool.and_eq_true, List.any_eq_true, List.any_eq_true]
  exact ⟨⟨i, hi, hadds⟩, j, hj, hwraps⟩

omit hP in
theorem leads_startListening (h : Coherent source script C x) :
    Leads P patience source script C x startListening fun _ _ => True := by
  unfold startListening
  refine leads_passive h rfl rfl fun y hy _ => ?_
  split
  · refine leads_passive hy rfl ?_ fun z hz _ => ?_
    · rfl
    · rcases (y.1.answer .listen).1 with e | u
      · exact leads_throw hz e
      · exact leads_pure hz trivial
  · exact leads_pure hy trivial

/-- A function that is lent is installed. -/
theorem leads_lend (binding : Binding Handle) (h : Coherent source script C x) :
    Leads P patience source script C x (lend binding) fun _ y =>
      isInstalled binding.name (lifetime y.2) = true := by
  unfold lend
  refine leads_passive h rfl rfl fun y hy htell => ?_
  show Leads P patience source script C y (if x.1.installed.contains binding.name = true then _ else _) _
  rcases hknown : x.1.installed.contains binding.name with _ | _
  · let raw := bindingMark ++ binding.name
    refine (leads_startListening hy).bind fun _ y hy _ _ => ?_
    refine (leads_send hP hy (by decide) (noTarget rfl) (noCalls rfl)).bind
      fun _ z hz hlife hadded => ?_
    refine (leads_callFunction hP hz fun _ _ => .inl rfl).bind fun _ last hlast hlife' hwrapped => ?_
    obtain ⟨rfl, hadded⟩ := hadded
    obtain ⟨mid, id, reply, honward, rfl, hreply, hread⟩ := hwrapped
    have hinstalled : isInstalled binding.name (lifetime (mid.tell (.command "Runtime.callFunctionOn"
        (callParams Script.installBinding
          [valueArgument (.string binding.name), valueArgument (.string raw)] true id))).2) = true :=
      isInstalled_of_mem (hlife'.mem (tellsDeath_ok hadded)) (adds_ok hadded)
        ((Onward.refl _).mem (tellsDeath_ok hreply)) (wraps_ok hreply hread)
    exact leads_ask rfl rfl (leads_pure (hlast.tell rfl rfl (hlast.remembers.markInstalled hinstalled))
      (Onward.isInstalled (onward_tell rfl) hinstalled))
  · refine leads_pure hy ?_
    refine hy.remembers.installed binding.name ?_
    rw [htell]
    exact List.contains_iff_mem.mp hknown

theorem leads_lends (bindings : List (Binding Handle)) (h : Coherent source script C x) :
    Leads P patience source script C x (bindings.forM lend) fun _ y =>
      ∀ b ∈ bindings, isInstalled b.name (lifetime y.2) = true := by
  induction bindings generalizing x with
  | nil => exact leads_pure h (List.forall_mem_nil _)
  | cons binding rest ih =>
    refine (leads_lend hP binding h).bind fun _ y hy _ hinstalled => (ih hy).mono fun _ z _ honward hrest => ?_
    exact List.forall_mem_cons.mpr ⟨honward.isInstalled hinstalled, hrest⟩

end Commands

/-! ### Waiting -/

/-- Since a wait was begun the bindings have been installed, and are so still; unless the page has
meanwhile been told to release a result, and told of a dead context. -/
def Bound (start : List (Instant P)) (bindings : List (Binding Handle)) (before : List (Instant P)) : Prop :=
  ∃ meanwhile, before = start ++ meanwhile ∧
    ((∀ b ∈ bindings, isInstalled b.name (lifetime before) = true) ∨
      ∃ i ∈ meanwhile, i.isRelease = true ∧ i.tellsDeath = true)

theorem Bound.onward {start : List (Instant P)} {bindings : List (Binding Handle)}
    (h : Bound start bindings x.2) (honward : Onward x y) : Bound start bindings y.2 := by
  obtain ⟨meanwhile, hmeanwhile, hinstalled⟩ := h
  obtain ⟨more, hmore, hlife⟩ := honward
  refine ⟨meanwhile ++ more, by rw [hmore, hmeanwhile, List.append_assoc], ?_⟩
  refine hinstalled.imp (fun hall b hb => Onward.isInstalled ⟨more, hmore, hlife⟩ (hall b hb)) ?_
  exact fun ⟨i, hi, hdeath⟩ => ⟨i, List.mem_append_left _ hi, hdeath⟩

section Waiting

variable {start : List (Instant P)} {bindings : List (Binding Handle)}
  (hP : ∀ method params s, (P.command method params s).2.1 = [])
  (hC : ∀ before, Bound start bindings before → C before)
include hP

/-- To release a result may tell of a dead context, and that is passed over. -/
theorem prompt_releaseResult (remote : RemoteObject)
    (h : Coherent source script C x) (hbound : Bound start bindings x.2) :
    Prompt (recording P patience) (fun y => Throughout (Meets source script C) y.2)
      (fun r y => r = .ok () ∧ Coherent source script C y ∧ Bound start bindings y.2)
      (releaseResult remote).outcome x := by
  unfold releaseResult
  split
  · rename_i id _
    refine prompt_attempt.mpr ((prompt_sendCoherent hP h (by decide) (noTarget rfl) (noCalls rfl)).mono ?_)
    rintro r y ⟨hy, -, ⟨rfl, hlife⟩ | ⟨rfl, hdeath, -⟩⟩
    · exact ⟨rfl, hy, hbound.onward (onward_tell hlife)⟩
    · obtain ⟨meanwhile, hmeanwhile, -⟩ := hbound
      let release : Query := .command "Runtime.releaseObject" (params [("objectId", .string id)])
      refine ⟨rfl, hy, meanwhile ++ [⟨x.1, release⟩, ⟨(x.tell release).1, .forget⟩], ?_,
        .inr ⟨⟨x.1, release⟩, by simp, rfl, hdeath⟩⟩
      rw [← List.append_assoc, ← hmeanwhile]
      exact List.append_assoc x.2 _ _
  · exact ⟨rfl, h, hbound⟩

include hC in
/-- While a function is waited for, it is called with its bindings installed. -/
theorem solo_poll (function : String) (arguments : List Json) (timeout interval : Nat) (deadline : Option Nat) (fuel : Nat)
    (h : Coherent source script C x) (hbound : Bound start bindings x.2) :
    Solo (recording P patience) (fun y => Throughout (Meets source script C) y.2)
      (fun _ y => Coherent source script C y)
      (poll function arguments timeout interval deadline fuel).outcome x := by
  induction fuel generalizing x with
  | zero => exact Activity.solo_never h.throughout
  | succ fuel ih =>
    refine Prompt.thenSoloAction (Prompt.mono
      (leads_callFunction hP h fun y honward => .inr (hC _ (hbound.onward honward))) fun r y hy => ?_)
    obtain ⟨hcoherent, hok⟩ := hy
    cases r with
    | error e => exact hcoherent
    | ok remote =>
      have hhere : Bound start bindings y.2 := hbound.onward (hok remote rfl).1
      dsimp only
      split
      · exact Prompt.solo (Prompt.mono (leads_wrap remote hcoherent) fun _ _ hz => hz.1)
      · refine Prompt.thenSoloAction ((prompt_releaseResult hP remote hcoherent hhere).mono ?_)
        rintro r z ⟨rfl, hz, hthere⟩
        refine Activity.solo_clock fun now => ?_
        split
        · exact hz
        · exact Activity.solo_sleep hz.throughout (ih hz hthere)

include hC in
theorem solo_waitFor (function : String) (wait : FunctionWait) (args : List (Argument Handle))
    (h : Coherent source script C x) (hstart : x.2 = start) :
    Solo (recording P patience) (fun y => Throughout (Meets source script C) y.2)
      (fun _ y => Coherent source script C y)
      (waitFor patience function wait bindings args).outcome x := by
  have hpoll (deadline : Option Nat) (y : Recorded P) (hy : Coherent source script C y)
      (hbound : Bound start bindings y.2) :
      Solo (recording P patience) (fun y => Throughout (Meets source script C) y.2)
        (fun _ y => Coherent source script C y) (Action.outcome (do
          let arguments ← args.mapM callArgument
          let interval := pollInterval wait.polling
          poll function arguments wait.timeout interval deadline (turns patience wait.timeout interval))) y := by
    refine Prompt.thenSoloAction (Prompt.mono (leads_callArguments args hy) fun r z hz => ?_)
    cases r with
    | error e => exact hz.1
    | ok arguments => exact solo_poll hP hC _ _ _ _ _ _ hz.1 (hbound.onward (hz.2 arguments rfl).1)
  unfold waitFor
  refine Prompt.thenSoloAction (Prompt.mono (leads_lends hP bindings h) fun r y hy => ?_)
  cases r with
  | error e => exact hy.1
  | ok _ =>
    obtain ⟨⟨more, hmore, -⟩, hinstalled⟩ := hy.2 () rfl
    have hbound : Bound start bindings y.2 := ⟨more, hstart ▸ hmore, .inl hinstalled⟩
    dsimp only
    split
    · exact hpoll none y hy.1 hbound
    · exact Activity.solo_clock fun time => hpoll (some (time + wait.timeout)) y hy.1 hbound

end Waiting

end Wayfind.Remote
