/-
The document of a structured selector says exactly which selector it is.

Nothing in a document is marked: a string beside compounds is a combinator, a string inside
a compound is CSS, even one that reads like a combinator.  Still every tree is read back
from its document, level by level (`Part.reader_toJson`, `Link.reader_toJson`), and the
document from its text.  So the text that plain CSS hands to the matcher in the page means
the tree that was parsed, and nothing else (`wire_roundTrip`).
-/
import Wayfind.Proofs.Json.Rereading
import Wayfind.Proofs.Selector.Reading
import Wayfind.Query.Handler

namespace Wayfind.Json

variable {α : Type}

theorem Document.ofItems_eq_map (items : List Json) :
    Document.ofItems items = items.map Document.ofJson := by
  induction items with
  | nil => rfl
  | cons item items ih => rw [Document.ofItems, ih, List.map_cons]

/-- A list is read when its items are. -/
theorem Reader.list_ofJson {reader : Reader α} {toJson : α → Json} (room : Nat) {xs : List α}
    (h : ∀ x ∈ xs, reader room (Document.ofJson (toJson x)) = some x) :
    Reader.list reader (room + 1) (Document.ofJson (.array (xs.map toJson))) = some xs := by
  rw [Document.ofJson, Document.ofItems_eq_map, List.map_map]
  show List.mapM (reader room) _ = _
  induction xs with
  | nil => rfl
  | cons x xs ih =>
    rw [List.forall_mem_cons] at h
    rw [List.map_cons, List.mapM_cons, ih h.2]
    simp [h.1]

/-- An array has a value when its items have. -/
theorem Document.isSome_toJson?_array {room : Nat} {items : List Json}
    (h : ∀ item ∈ items, ((Document.ofJson item).toJson? room).isSome = true) :
    ((Document.ofJson (.array items)).toJson? (room + 1)).isSome = true := by
  rw [Document.ofJson, Document.ofItems_eq_map]
  suffices hitems : (itemsToJson? room (items.map ofJson)).isSome = true by
    simpa [toJson?] using hitems
  induction items with
  | nil => rfl
  | cons item items ih =>
    rw [List.forall_mem_cons] at h
    obtain ⟨value, hvalue⟩ := Option.isSome_iff_exists.mp h.1
    obtain ⟨values, hvalues⟩ := Option.isSome_iff_exists.mp (ih h.2)
    simp [itemsToJson?, hvalue, hvalues]

end Wayfind.Json

namespace Wayfind.Selector

open Json (Document WrittenAs)

/-! ### One level above the other -/

theorem Part.reader_toJson (part : Part) (room : Nat) :
    Part.reader (room + 1) (Document.ofJson part.toJson) = some part := by
  cases part with
  | css text => rfl
  | pseudo node => rfl

/-- A part needs room for the one record it may be. -/
theorem Part.isSome_toJson? (part : Part) (room : Nat) :
    ((Document.ofJson part.toJson).toJson? (room + 1)).isSome = true := by
  cases part with
  | css text => rfl
  | pseudo node => rfl

theorem Link.reader_toJson (link : Link) (room : Nat) :
    Link.reader (room + 2) (Document.ofJson link.toJson) = some link := by
  cases link with
  | combinator c => cases c <;> rfl
  | compound parts =>
    -- An array is no name, so it is read as a compound, once it is known to have a value.
    have hitems : ∀ item ∈ parts.map Part.toJson,
        ((Document.ofJson item).toJson? (room + 1)).isSome = true := by
      intro item hitem
      obtain ⟨part, -, rfl⟩ := List.mem_map.mp hitem
      exact part.isSome_toJson? room
    obtain ⟨value, hvalue⟩ :=
      Option.isSome_iff_exists.mp (Document.isSome_toJson?_array hitems)
    have hread : ∀ part ∈ parts, Part.reader (room + 1) (Document.ofJson part.toJson) = some part :=
      fun part _ => part.reader_toJson room
    have hparts := Json.Reader.list_ofJson (room + 1) hread
    simp only [Link.reader, Link.toJson]
    rw [hvalue, hparts]
    rfl

theorem Part.writtenAs (part : Part) : ∃ ts, WrittenAs part.toJson ts := by
  cases part with
  | css text => exact ⟨_, Json.writtenAs_string text⟩
  | pseudo node =>
    refine Json.writtenAs_object fun m hm => ?_
    simp only [List.mem_cons, List.not_mem_nil, or_false] at hm
    rcases hm with rfl | rfl
    · exact ⟨_, Json.writtenAs_string node.name⟩
    · exact ⟨_, Json.writtenAs_string node.value⟩

theorem Link.writtenAs (link : Link) : ∃ ts, WrittenAs link.toJson ts := by
  cases link with
  | combinator c => exact ⟨_, Json.writtenAs_string c.text⟩
  | compound parts =>
    refine Json.writtenAs_array fun item hitem => ?_
    obtain ⟨part, -, rfl⟩ := List.mem_map.mp hitem
    exact part.writtenAs

end Wayfind.Selector

namespace Wayfind.SelectorList

open Json (Document WrittenAs)

theorem writtenAs (ast : SelectorList) : ∃ ts, WrittenAs ast.toJson ts := by
  refine Json.writtenAs_array fun item hitem => ?_
  obtain ⟨links, -, rfl⟩ := List.mem_map.mp hitem
  refine Json.writtenAs_array fun item hitem => ?_
  obtain ⟨link, -, rfl⟩ := List.mem_map.mp hitem
  exact link.writtenAs

/-- Every selector is read from its text. -/
theorem ofText?_toText (ast : SelectorList) : ofText? ast.toText = some ast := by
  obtain ⟨ts, hts⟩ := ast.writtenAs
  rw [ofText?, Json.Reader.ofText?, toText, Json.compact, String.toList_ofList, hts.ofText?_render]
  exact Json.Reader.list_ofJson 126 fun links _ =>
    Json.Reader.list_ofJson 125 fun link _ => link.reader_toJson 123

end Wayfind.SelectorList

namespace Wayfind.Selector

open Query

/-! ### What the page is handed -/

/-- A selector asks the accessibility tree: a node of its structured form is named so. -/
def AsksAria (selector : String) : Prop :=
  ∃ ast ∈ (parse selector).ast, ∃ node ∈ nodes ast, node.name = "aria"

/-- A selector as it was made ready by plain CSS. -/
structure Ready (selector : String) (p : Prepared) : Prop where
  /-- Plain CSS, and nothing else, is handed on as it stands. -/
  plain : (parse selector).isPureCss = true ↔
    p.selector = selector ∧ p.scripts = Handler.css.scripts ∧ bindingNames p.asksAria = []
  /-- Of anything else the matcher is handed a text of its structured form. -/
  structured : (parse selector).isPureCss = false →
    p.scripts = Handler.structuredScripts ∧ (parse selector).ast.isSome = true ∧
      SelectorList.ofText? p.selector = (parse selector).ast
  bindings : ∀ name, name ∈ bindingNames p.asksAria ↔ name = ariaFunctionName ∧ AsksAria selector

theorem ready_prepare (selector : String) : Ready selector (Handler.css.prepare selector) := by
  have hscripts : Handler.structuredScripts ≠ Handler.css.scripts := by
    simp [Handler.structuredScripts, Handler.css]
  have hnames : ∀ asks name,
      name ∈ bindingNames asks ↔ name = ariaFunctionName ∧ asks = true := by
    intro asks name
    cases asks <;> simp [bindingNames]
  have hpure := isSome_ast_parse selector
  cases hast : (parse selector).ast with
  | none =>
    rw [hast, Option.isSome_none, eq_comm, Bool.not_eq_false'] at hpure
    have hprepare : Handler.css.prepare selector = ⟨selector, Handler.css.scripts, false⟩ := by
      simp [Handler.prepare, Parsed.astText, hast, show Handler.css.dialect = .css from rfl]
    rw [hprepare]
    refine ⟨by simp [hpure, bindingNames], by simp [hpure], fun name => ?_⟩
    simp [bindingNames, AsksAria, hast]
  | some ast =>
    rw [hast, Option.isSome_some, eq_comm, Bool.not_eq_true'] at hpure
    have hprepare : Handler.css.prepare selector =
        ⟨ast.toText, Handler.structuredScripts, (parse selector).hasAria⟩ := by
      simp [Handler.prepare, Parsed.astText, hast, show Handler.css.dialect = .css from rfl]
    rw [hprepare]
    refine ⟨by simp [hpure, hscripts], fun _ => ⟨rfl, by rw [hast]; rfl, ?_⟩, fun name => ?_⟩
    · rw [hast]
      exact ast.ofText?_toText
    · rw [hnames, hasAria_parse]
      rfl

/-- The document form loses nothing: a selector is what is read of its text, an accepted text keeps its
selector and settles after one writing, and what plain CSS hands to the page means what was parsed. -/
theorem wire_roundTrip :
    (∀ ast : SelectorList, SelectorList.ofText? ast.toText = some ast) ∧
    (∀ text, ∀ ast ∈ SelectorList.ofText? text, ∃ again,
      SelectorList.ofText? ast.toText = some again ∧ again = ast ∧ again.toText = ast.toText) ∧
    ∀ selector, Ready selector (Handler.css.prepare selector) :=
  ⟨SelectorList.ofText?_toText,
    fun _ ast _ => ⟨ast, ast.ofText?_toText, rfl, rfl⟩,
    ready_prepare⟩

end Wayfind.Selector
