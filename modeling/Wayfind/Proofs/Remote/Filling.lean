/-
Fields of a page behind a connection can be filled.

Of the page it is only known what the page functions do that read, empty and focus an
element, and that a key appends its character to the element with the focus, unless the
command fails; and that nothing else the program asks for changes a text or moves the focus.
Then reading gives the text, emptying leaves none, and typing, which gives the element the
focus and sends one key after another, appends the characters one by one.
-/
import Wayfind.Proofs.Page.Filling
import Wayfind.Proofs.Remote.Conservation
import Wayfind.Proofs.Remote.Guiding

namespace Wayfind.Remote

open Activity (KeptBy Timeline Token)
open PageSide (Action)
open Protocol (RemoteObject)

variable {P : Peer} {patience : Nat}

/-- The parameters of a key that types a character. -/
abbrev keyParams (c : Char) : Json := params [("type", .string "char"), ("text", .string (String.singleton c))]

/-- What the call of a page function does to the element it is called on, and what comes of it. -/
abbrev onElement (P : Peer) (script : String) (this : Json) (id : String) (s : P.State) :
    Delivery × List Protocol.Event × P.State :=
  P.command "Runtime.callFunctionOn" (callParams script [this] true id) s

/-- What a page knows of its elements that hold a text. -/
structure Fields (P : Peer) where
  Node : Type
  /-- The element that an argument of a call stands for. -/
  node : Json → Node
  text : P.State → Node → String
  focused : P.State → Option Node

/-- The question is plain, or a call that spares what is in elements. -/
def Query.Harmless (q : Query) : Prop :=
  q.IsPlain ∨ ∃ doc, Spares doc ∧ q = .command "Runtime.callFunctionOn" doc

namespace Fields

/-- The elements are fields to type in. -/
structure Typeable (F : Fields P) : Prop where
  kind : ∀ this id s r k, resultOf (onElement P ElementScript.fillKind this id s).1.outcome = .ok r →
    FillKind.ofJson? r.localValue = some k → k ≠ .select ∧ k ≠ .otherInput
  /-- Reading gives the text, and leaves it. -/
  reads : ∀ this id s r, resultOf (onElement P ElementScript.text this id s).1.outcome = .ok r →
    r.localValue = .string (F.text s (F.node this)) ∧
      F.text (onElement P ElementScript.text this id s).2.2 (F.node this) = F.text s (F.node this)
  /-- Emptying leaves no text. -/
  clears : ∀ this id s r, resultOf (onElement P ElementScript.clear this id s).1.outcome = .ok r →
    F.text (onElement P ElementScript.clear this id s).2.2 (F.node this) = ""
  /-- An element that is given the focus has it, and keeps its text. -/
  focuses : ∀ this id s r, resultOf (onElement P Script.focus this id s).1.outcome = .ok r →
    F.focused (onElement P Script.focus this id s).2.2 = some (F.node this) ∧
      F.text (onElement P Script.focus this id s).2.2 (F.node this) = F.text s (F.node this)
  /-- A key appends its character to the element with the focus. -/
  keys : ∀ c s n reply, F.focused s = some n →
    (P.command "Input.dispatchKeyEvent" (keyParams c) s).1.outcome = .ok reply →
      F.focused (P.command "Input.dispatchKeyEvent" (keyParams c) s).2.2 = some n ∧
        F.text (P.command "Input.dispatchKeyEvent" (keyParams c) s).2.2 n = F.text s n ++ String.singleton c
  /-- Nothing else changes a text or moves the focus. -/
  harmless : ∀ method doc s, (Query.command method doc).Harmless →
    F.text (P.command method doc s).2.2 = F.text s ∧ F.focused (P.command method doc s).2.2 = F.focused s
  closes : ∀ s, F.text (P.close s).2 = F.text s ∧ F.focused (P.close s).2 = F.focused s

variable (F : Fields P)

/-- What is done to an element by a page function that is called on it for the value of its result. -/
def called (s : P.State) (script : String) (this : Json) (result : Except Error RemoteObject) :
    List (Touch F.Node) :=
  if script = ElementScript.text then
    match result with
    | .ok _ => [.read (F.node this) (F.text s (F.node this))]
    | .error _ => []
  else if script = ElementScript.clear then [.clear (F.node this)]
  else []

/-- What is done to fields by a command. -/
def commanded (s : P.State) (method : String) (doc : Json) : List (Touch F.Node) :=
  if method = "Input.dispatchKeyEvent" then
    match F.focused s with
    | some n => Wayfind.keys n ((doc.member "text").string?.getD "")
    | none => []
  else if method = "Runtime.callFunctionOn" ∧ (doc.member "returnByValue").bool? = some true then
    F.called s ((doc.member "functionDeclaration").string?.getD "")
      (((doc.member "arguments").items?.getD []).headD .null) (resultOf (P.command method doc s).1.outcome)
  else []

/-- What is done to fields at an instant. -/
def touches : Instant P → List (Touch F.Node)
  | ⟨w, .command method doc⟩ => F.commanded w.peer method doc
  | _ => []

theorem commanded_call (s : P.State) (script : String) (this : Json) (id : String) :
    F.commanded s "Runtime.callFunctionOn" (callParams script [this] true id) =
      F.called s script this (resultOf (onElement P script this id s).1.outcome) := by
  unfold commanded
  rw [if_neg (by decide), if_pos ⟨rfl, rfl⟩]
  rfl

/-- A key is typed into the element with the focus. -/
theorem commanded_key {s : P.State} {n : F.Node} (h : F.focused s = some n) (c : Char) :
    F.commanded s "Input.dispatchKeyEvent" (keyParams c) = [.key n c] := by
  have htext : ((keyParams c).member "text").string? = some (String.singleton c) := rfl
  unfold commanded
  rw [if_pos rfl, h, htext]
  show (String.singleton c).toList.map (Touch.key n) = _
  rw [String.toList_singleton, List.map_singleton]

theorem touches_harmless {m : Instant P} (h : m.query.Harmless) : F.touches m = [] := by
  obtain ⟨w, q⟩ := m
  cases q with
  | command method doc =>
    show F.commanded w.peer method doc = []
    unfold commanded
    rcases h with hplain | ⟨doc', hspares, hquery⟩
    · rw [if_neg hplain.2.2, if_neg fun hcall => hplain.1 hcall.1]
    · obtain ⟨rfl, rfl⟩ := Query.command.inj hquery
      rw [if_neg (by decide)]
      split
      · rename_i hvalue
        have hspared {script : String} (h : script ∈ Script.onFields) (hscript : "" ≠ script) :
            (doc.member "functionDeclaration").string?.getD "" ≠ script := by
          have hother := hspares hvalue.2 script h
          cases hdeclared : (doc.member "functionDeclaration").string? with
          | none => exact hscript
          | some declared => exact fun hsame => hother (hdeclared.trans (congrArg some hsame))
        unfold called
        rw [if_neg (hspared (by decide +kernel) (by decide +kernel)),
          if_neg (hspared (by decide +kernel) (by decide +kernel))]
      · rfl
  | _ => rfl

/-- What is seen of the fields. -/
structure Seen where
  text : F.Node → String
  focused : Option F.Node
  log : List (Touch F.Node)

/-- What a recorded world shows of the fields. -/
def seen (x : Recorded P) : F.Seen := ⟨F.text x.1.peer, F.focused x.1.peer, x.2.flatMap F.touches⟩

/-- What a recorded world shows of the fields, for whoever fills them. -/
def sheet (patience : Nat) : Sheet (recording P patience) where
  View := F.Seen
  Element := F.Node
  view := F.seen
  element h := F.node (handleJson h)
  text := Seen.text
  log := Seen.log

variable {F}

theorem log_tell (x : Recorded P) (q : Query) :
    (F.seen (x.tell q)).log = (F.seen x).log ++ F.touches ⟨x.1, q⟩ := by
  unfold seen Recorded.tell
  rw [List.flatMap_append, List.flatMap_singleton]

variable (patience) in
/-- Nothing harmless shows. -/
theorem Typeable.kept (hF : F.Typeable) (v : F.Seen) :
    KeptBy (recording P patience) Query.Harmless fun x => F.seen x = v := by
  intro (q : Query) (x : Recorded P) hq (hx : F.seen x = v)
  have hlog : (F.seen (x.tell q)).log = (F.seen x).log := by
    rw [log_tell, F.touches_harmless (m := ⟨x.1, q⟩) hq, List.append_nil]
  have hpeer : F.text (x.tell q).1.peer = F.text x.1.peer ∧ F.focused (x.tell q).1.peer = F.focused x.1.peer := by
    cases q with
    | command method doc => exact hF.harmless method doc x.1.peer hq
    | close => exact hF.closes x.1.peer
    | listen =>
      show F.text (x.1.answer .listen).2.1.peer = _ ∧ F.focused (x.1.answer .listen).2.1.peer = _
      unfold World.answer
      dsimp only
      split <;> exact ⟨rfl, rfl⟩
    | _ => exact ⟨rfl, rfl⟩
  subst hx
  show F.seen (x.tell q) = F.seen x
  unfold seen at hlog ⊢
  rw [hpeer.1, hpeer.2]
  exact congrArg _ hlog

theorem harmless_plain (q : Query) (h : q.IsPlain) : q.Harmless := .inl h

theorem harmless_call (doc : Json) (h : Spares doc) : (Query.command "Runtime.callFunctionOn" doc).Harmless :=
  .inr ⟨doc, h, rfl⟩

theorem handsoff_harmless : Handsoff fun r => ∀ q, r = .query q → Query.Harmless q :=
  handsoff_mild harmless_plain harmless_call

variable (patience) in
theorem Typeable.plain (hF : F.Typeable) (v : F.Seen) :
    KeptBy (recording P patience) Query.IsPlain fun x => F.seen x = v :=
  fun q x hq => hF.kept patience v q x (harmless_plain q hq)

/-! ### Page functions -/

section Evaluate

variable (hF : F.Typeable) (h : Handle) {v : F.Seen} {known : List Token}
include hF

/-- A page function that is called on an element does to it what it is for. -/
theorem Typeable.evaluate {script : String} {stops : List (Touch F.Node) → Prop} {whole : List (Touch F.Node)}
    {text : String} {R : Json → Prop} (hstart : stops []) (hend : ∀ done, done <+: whole → stops done)
    (htouch : ∀ s result, F.text s = v.text → F.called s script (handleJson h) result <+: whole)
    (hok : ∀ s id r, F.text s = v.text → resultOf (onElement P script (handleJson h) id s).1.outcome = .ok r →
      R r.localValue ∧ F.called s script (handleJson h) (.ok r) = whole ∧
        F.text (onElement P script (handleJson h) id s).2.2 (F.node (handleJson h)) = text) :
    (F.sheet patience).Makes stops whole (F.node (handleJson h)) text R (h.evaluate script []) v := by
  intro known
  have hnone : (F.sheet patience).Partly stops whole v v := ⟨[], List.nil_prefix, hstart, (List.append_nil _).symm⟩
  refine guides_evaluate (hF.plain patience) hnone h hnone fun x id hx => ?_
  subst hx
  obtain ⟨result, hresult⟩ : ∃ result, resultOf (onElement P script (handleJson h) id x.1.peer).1.outcome =
    result := ⟨_, rfl⟩
  have hlog : (F.seen (x.tell (.command "Runtime.callFunctionOn" (callParams script [handleJson h] true id)))).log =
      (F.seen x).log ++ F.called x.1.peer script (handleJson h) result := by
    rw [log_tell, ← hresult]
    exact congrArg _ (F.commanded_call x.1.peer script (handleJson h) id)
  have hpartly : (F.sheet patience).Partly stops whole (F.seen x)
      (F.seen (x.tell (.command "Runtime.callFunctionOn" (callParams script [handleJson h] true id)))) :=
    ⟨_, htouch x.1.peer result rfl, hend _ (htouch x.1.peer result rfl), hlog⟩
  refine ⟨fun _ => hpartly, ?_⟩
  have hdelivered : resultOf (x.delivery "Runtime.callFunctionOn"
    (callParams script [handleJson h] true id)).outcome = result := hresult
  rw [hdelivered]
  cases result with
  | error e => exact hpartly
  | ok r =>
    obtain ⟨hr, hcalled, htext⟩ := hok x.1.peer id r rfl hresult
    exact ⟨hr, hcalled ▸ hlog, htext⟩

theorem Typeable.read : (F.sheet patience).Makes (fun done => False → done = [])
    [.read (F.node (handleJson h)) (v.text (F.node (handleJson h)))] (F.node (handleJson h))
    (v.text (F.node (handleJson h))) (fun doc => doc = .string (v.text (F.node (handleJson h))))
    (h.evaluate ElementScript.text []) v := by
  have hcalled (s : P.State) (result : Except Error RemoteObject) :
      F.called s ElementScript.text (handleJson h) result = match result with
        | .ok _ => [.read (F.node (handleJson h)) (F.text s (F.node (handleJson h)))]
        | .error _ => [] := if_pos rfl
  refine hF.evaluate h nofun (fun _ _ => nofun) (fun s result htext => ?_) fun s id r htext hr => ?_
  · rw [hcalled, htext]
    split
    · exact List.prefix_rfl
    · exact List.nil_prefix
  · obtain ⟨hvalue, hsame⟩ := hF.reads _ id _ r hr
    rw [hcalled, hvalue, hsame, htext]
    exact ⟨rfl, rfl, rfl⟩

theorem Typeable.clear : (F.sheet patience).Makes (fun done => False → done ≠ [])
    [.clear (F.node (handleJson h))] (F.node (handleJson h)) "" (fun _ => True)
    (h.evaluate ElementScript.clear []) v := by
  have hcalled (s : P.State) (result : Except Error RemoteObject) :
      F.called s ElementScript.clear (handleJson h) result = [.clear (F.node (handleJson h))] :=
    (if_neg (by decide +kernel)).trans (if_pos rfl)
  refine hF.evaluate h nofun (fun _ _ => nofun) (fun s result _ => ?_) fun s id r _ hr => ?_
  · rw [hcalled]
    exact List.prefix_rfl
  · exact ⟨trivial, hcalled s _, hF.clears _ id _ r hr⟩

/-- To ask for the kind of an element does nothing to it. -/
theorem Typeable.kindOf : Guides (recording P patience) F.seen (· = v) (fun r _ u => u = v ∧
    ∀ doc k, r = .ok doc → FillKind.ofJson? doc = some k → k ≠ .select ∧ k ≠ .otherInput)
    (h.evaluate ElementScript.fillKind []) known v := by
  have hasked : Guides (recording P patience) F.seen (· = v) (EndsIn (fun doc u => u = v ∧
      ∀ k, FillKind.ofJson? doc = some k → k ≠ .select ∧ k ≠ .otherInput) (· = v))
      (h.evaluate ElementScript.fillKind []) known v := by
    refine guides_evaluate (hF.plain patience) ?_ h ?_ fun x id hx => ?_
    · exact rfl
    · exact rfl
    have hsame : F.seen (x.tell (.command "Runtime.callFunctionOn"
        (callParams ElementScript.fillKind [handleJson h] true id))) = v :=
      hF.kept patience v _ x (harmless_call _ (spares_call (by decide +kernel) _ _ _)) hx
    refine ⟨fun _ => hsame, ?_⟩
    cases hresult : resultOf (x.delivery "Runtime.callFunctionOn"
      (callParams ElementScript.fillKind [handleJson h] true id)).outcome with
    | error e => exact hsame
    | ok r => exact ⟨hsame, fun k hk => hF.kind _ id _ r k hresult hk⟩
  refine hasked.mono fun r more u hr => ?_
  cases r with
  | error e => exact ⟨hr, nofun⟩
  | ok doc => exact ⟨hr.1, fun _ k hdoc => Except.ok.inj hdoc ▸ hr.2 k⟩

end Evaluate

/-! ### Typing -/

section Typing

variable (hF : F.Typeable) {v : F.Seen} {known : List Token}
include hF

/-- An element is given the focus, and nothing else is done to it. -/
theorem Typeable.focus (h : Handle) : Guides (recording P patience) F.seen (fun u => u.log = v.log)
    (EndsIn (fun _ u => u.log = v.log ∧ u.focused = some (F.node (handleJson h)) ∧
      u.text (F.node (handleJson h)) = v.text (F.node (handleJson h))) fun u => u.log = v.log)
    h.focus known v := by
  have hcalled (s : P.State) (result : Except Error RemoteObject) :
      F.called s Script.focus (handleJson h) result = [] :=
    (if_neg (by decide +kernel)).trans (if_neg (by decide +kernel))
  have hfocus : Guides (recording P patience) F.seen (fun u => u.log = v.log)
      (EndsIn (fun _ u => u.log = v.log ∧ u.focused = some (F.node (handleJson h)) ∧
        u.text (F.node (handleJson h)) = v.text (F.node (handleJson h))) fun u => u.log = v.log)
      (h.evaluate Script.focus []) known v := by
    refine guides_evaluate (hF.plain patience) ?_ h ?_ fun x id hx => ?_
    · exact rfl
    · exact rfl
    subst hx
    have hlog : (F.seen (x.tell (.command "Runtime.callFunctionOn"
        (callParams Script.focus [handleJson h] true id)))).log = (F.seen x).log := by
      rw [log_tell]
      exact (congrArg _ ((F.commanded_call _ _ _ id).trans (hcalled _ _))).trans (List.append_nil _)
    refine ⟨fun _ => hlog, ?_⟩
    cases hresult : resultOf (x.delivery "Runtime.callFunctionOn"
      (callParams Script.focus [handleJson h] true id)).outcome with
    | error e => exact hlog
    | ok r => exact ⟨hlog, hF.focuses _ id _ r hresult⟩
  exact hfocus.andThen (fun _ _ _ hr => hr) fun _ _ _ hr => hr

/-- A key is sent to the element with the focus. -/
theorem Typeable.key {n : F.Node} (hfocused : v.focused = some n) (c : Char) :
    Guides (recording P patience) F.seen (fun u => u.log = v.log ++ [.key n c])
      (EndsIn (fun _ u => u.log = v.log ++ [.key n c] ∧ u.focused = some n ∧
        u.text n = v.text n ++ String.singleton c) fun u => u.log = v.log ++ [.key n c])
      (send "Input.dispatchKeyEvent" (keyParams c)) known v := by
  refine guides_send (view_forget (hF.plain patience)) fun x hx => ?_
  subst hx
  have hlog : (F.seen (x.tell (.command "Input.dispatchKeyEvent" (keyParams c)))).log =
      (F.seen x).log ++ [.key n c] := by
    rw [log_tell]
    exact congrArg _ (F.commanded_key hfocused c)
  refine ⟨fun _ => hlog, ?_⟩
  cases hreply : (x.delivery "Input.dispatchKeyEvent" (keyParams c)).outcome with
  | error e => exact hlog
  | ok reply => exact ⟨hlog, hF.keys c _ n reply hfocused hreply⟩

omit hF in
/-- A beginning of these characters was typed. -/
def Typed (n : F.Node) (cs : List Char) (v u : F.Seen) : Prop :=
  ∃ done, done <+: cs.map (Touch.key n) ∧ u.log = v.log ++ done

omit hF in
theorem Typed.cons {n : F.Node} {c : Char} {rest : List Char} {mid u : F.Seen}
    (hmid : mid.log = v.log ++ [.key n c]) (h : Typed n rest mid u) : Typed n (c :: rest) v u := by
  obtain ⟨done, hdone, hlog⟩ := h
  refine ⟨.key n c :: done, (List.prefix_append_right_inj [Touch.key n c]).mpr hdone, ?_⟩
  rw [hlog, hmid, List.append_assoc]
  rfl

/-- One character after another is typed, as far as that succeeds. -/
theorem Typeable.characters {n : F.Node} (hfocused : v.focused = some n) (cs : List Char) :
    Guides (recording P patience) F.seen (Typed n cs v)
      (EndsIn (fun _ u => u.log = v.log ++ cs.map (.key n) ∧ u.text n = v.text n ++ String.ofList cs)
        (Typed n cs v))
      (cs.forM fun c => do
        let _ ← send "Input.dispatchKeyEvent" (keyParams c)) known v := by
  induction cs generalizing v known with
  | nil =>
    refine ⟨(List.append_nil _).symm, ?_⟩
    rw [String.ofList_nil, String.append_empty]
  | cons c rest ih =>
    have hfirst (u : F.Seen) (hu : u.log = v.log ++ [.key n c]) : Typed n (c :: rest) v u :=
      ⟨[.key n c], List.prefix_append [_] _, hu⟩
    have hone : Guides (recording P patience) F.seen (Typed n (c :: rest) v)
        (EndsIn (fun _ u => u.log = v.log ++ [.key n c] ∧ u.focused = some n ∧
          u.text n = v.text n ++ String.singleton c) fun u => u.log = v.log ++ [.key n c])
        (send "Input.dispatchKeyEvent" (keyParams c) >>= fun _ => pure PUnit.unit) known v :=
      ((hF.key hfocused c).relax hfirst).andThen (fun _ _ _ hr => hr) fun _ _ _ hr => hr
    refine hone.andThen ?_ fun e more u hr => hfirst u hr
    rintro _ more mid ⟨hlog, hkept, htext⟩
    refine ((ih hkept).relax fun u hu => hu.cons hlog).mono fun r more u hr => ?_
    cases r with
    | error e => exact Typed.cons hlog hr
    | ok x =>
      refine ⟨hr.1.trans ?_, hr.2.trans ?_⟩
      · rw [hlog, List.append_assoc]
        rfl
      · rw [htext, String.append_assoc]
        exact congrArg (v.text n ++ ·) (String.toList_inj.mp (by simp))

/-- To type a text is to give the element the focus and to type the characters. -/
theorem Typeable.type (h : Handle) (text : String) :
    (F.sheet patience).Makes (fun _ => True) (Wayfind.keys (F.node (handleJson h)) text) (F.node (handleJson h))
      (v.text (F.node (handleJson h)) ++ text) (fun _ => True) (h.typeText text) v := by
  intro known
  let n := F.node (handleJson h)
  have hstarted (u : F.Seen) (hu : u.log = v.log) :
      (F.sheet patience).Partly (fun _ => True) (Wayfind.keys n text) v u :=
    ⟨[], List.nil_prefix, trivial, hu.trans (List.append_nil _).symm⟩
  refine ((hF.focus h).relax hstarted).andThen ?_ fun e more u hr => hstarted u hr
  rintro _ more mid ⟨hlog, hfocused, htext⟩
  have hpartly (u : F.Seen) (hu : Typed n text.toList mid u) :
      (F.sheet patience).Partly (fun _ => True) (Wayfind.keys n text) v u := by
    obtain ⟨done, hdone, hu⟩ := hu
    exact ⟨done, hdone, trivial, hu.trans (congrArg (· ++ done) hlog)⟩
  refine ((hF.characters hfocused text.toList).relax hpartly).mono fun r more u hr => ?_
  cases r with
  | error e => exact hpartly u hr
  | ok x =>
    refine ⟨trivial, hr.1.trans (congrArg (· ++ _) hlog), hr.2.trans ?_⟩
    rw [htext, String.ofList_toList]

end Typing

/-- Fields of a page behind a connection can be filled. -/
theorem Typeable.fillable (hF : F.Typeable) : (F.sheet patience).Fillable (browser patience) (fun _ => True)
    Query.Harmless False False where
  browser := innocent_browser harmless_plain harmless_call
  asks := fun _ _ _ => Activity.asks_of_forall (fun _ => trivial) _
  tames := Activity.tames_of_innocent (innocent_start (P := P) harmless_plain harmless_call)
  kept := hF.kept patience
  inViewport := asks_inViewport handsoff_harmless
  stable := asks_stable handsoff_harmless
  enabled := asks_enabled handsoff_harmless
  kind := fun h _ _ => (hF.kindOf h).mono fun _ _ _ hr => ⟨hr.1, fun doc k hdoc hk => .inr (hr.2 doc k hdoc hk)⟩
  reads := fun h _ => hF.read h
  clears := fun h _ => hF.clear h
  types := fun h text _ => hF.type h text
  selects := nofun
  assigns := nofun

end Fields

end Wayfind.Remote
