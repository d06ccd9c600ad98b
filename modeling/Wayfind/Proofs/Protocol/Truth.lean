/-
Which values of a page count as true, and which of them still do once they have been described.

A page tells of a value that it does not hand out by a description: a reference, or the value itself, or
its spelling where documents have no such number.  `Value.Shown` lists the descriptions, `Writes` says
which documents hold one, and `Answers` which replies do.  Read back, a description counts as true exactly
when the value does (`isTruthy_of_writes`), with the exception of the values that are lost: of an infinite
number or a large integer nothing is left but the spelling, which counts as null.
-/
import Mathlib.Data.List.Nodup
import Wayfind.Protocol.RemoteObject

namespace Wayfind.Json

open Reader (membersNamed)

/-! ### Records in documents -/

/-- The fields of a record are found where each key stands once. -/
theorem exists_membersNamed (names : List String) {members : List (String × Json)}
    (h : (members.map Prod.fst).Nodup) :
    ∃ found, membersNamed names (Document.ofMembers members) = some found ∧
      ∀ name ∈ names, found.lookup name = (members.lookup name).map Document.ofJson := by
  induction members with
  | nil => exact ⟨[], rfl, fun _ _ => rfl⟩
  | cons member rest ih =>
    obtain ⟨key, value⟩ := member
    obtain ⟨hfresh, hrest⟩ := List.nodup_cons.mp h
    obtain ⟨found, hfound, hlookup⟩ := ih hrest
    by_cases hkey : key ∈ names
    · have hnone : found.lookup key = none := by
        rw [hlookup key hkey, List.lookup_eq_none_iff.mpr ?_, Option.map_none]
        intro member hmember
        have hother : key ≠ member.1 := fun hsame =>
          hfresh (List.mem_map.mpr ⟨member, hmember, hsame.symm⟩)
        simpa using hother
      refine ⟨(key, Document.ofJson value) :: found, ?_, fun name hname => ?_⟩
      · simp [Document.ofMembers, membersNamed, hfound, hkey, hnone]
      · simp only [List.lookup_cons]
        split
        · rfl
        · exact hlookup name hname
    · refine ⟨found, ?_, fun name hname => ?_⟩
      · simp [Document.ofMembers, membersNamed, hfound, hkey]
      · have hother : (name == key) = false := beq_false_of_ne fun hsame => hkey (hsame ▸ hname)
        rw [List.lookup_cons, hother]
        exact hlookup name hname

end Wayfind.Json

namespace Wayfind.Protocol

open Json (Document Number Reader)

/-! ### Values -/

/-- A value of a page, as far as it matters whether it counts as true. -/
inductive Value where
  | undefined
  | null
  | bool (b : Bool)
  | string (s : String)
  /-- A finite number other than negative zero. -/
  | number (f : Float)
  | nan
  | infinity (negative : Bool)
  | negativeZero
  /-- An integer of any size. -/
  | bigint (n : Int)
  /-- An object, a function or a symbol. -/
  | reference

namespace Value

/-- The value counts as true in a condition of a page script. -/
def isTrue : Value → Bool
  | .undefined | .null | .nan | .negativeZero => false
  | .bool b => b
  | .string s => !s.isEmpty
  | .number f => f != 0
  | .bigint n => n != 0
  | .infinity _ | .reference => true

/-- The value counts as true, but nothing is told of it that does. -/
def isLost : Value → Bool
  | .infinity _ => true
  | .bigint n => n != 0
  | _ => false

/-- How a page describes a value, with any text for people. -/
inductive Shown : Value → RemoteObject → Prop
  | undefined (text : Option String) : Shown .undefined ⟨"undefined", none, none, none, text, none⟩
  | null (text : Option String) : Shown .null ⟨"object", some "null", none, some .null, text, none⟩
  | bool (b : Bool) (text : Option String) : Shown (.bool b) ⟨"boolean", none, none, some (.bool b), text, none⟩
  | string (s : String) (text : Option String) :
    Shown (.string s) ⟨"string", none, none, some (.string s), text, none⟩
  /-- The number may be written in any way that reads so. -/
  | number (n : Number) (text : Option String) :
    Shown (.number n.toFloat) ⟨"number", none, none, some (.number n), text, none⟩
  | nan (text : Option String) : Shown .nan ⟨"number", none, none, none, text, some "NaN"⟩
  | infinity (negative : Bool) (text : Option String) : Shown (.infinity negative)
    ⟨"number", none, none, none, text, some (if negative then "-Infinity" else "Infinity")⟩
  | negativeZero (text : Option String) : Shown .negativeZero ⟨"number", none, none, none, text, some "-0"⟩
  | bigint (n : Int) (text : Option String) :
    Shown (.bigint n) ⟨"bigint", none, none, none, text, some (toString n ++ "n")⟩
  | reference (kind : String) (subtype : Option String) (id : String) (text : Option String)
    (hsubtype : subtype ≠ some "null") : Shown .reference ⟨kind, subtype, some id, none, text, none⟩

end Value

/-! ### Descriptions in documents -/

/-- The document is an object with these parts of the description, each key once, and others that nobody
reads. -/
structure Writes (r : RemoteObject) (doc : Json) : Prop where
  exists_members : ∃ members : List (String × Json), doc = .object members ∧ (members.map Prod.fst).Nodup ∧
    members.lookup "type" = some (.string r.kind) ∧
    members.lookup "subtype" = r.subtype.map .string ∧
    members.lookup "objectId" = r.objectId.map .string ∧
    members.lookup "value" = r.value ∧
    members.lookup "description" = r.description.map .string ∧
    members.lookup "unserializableValue" = r.unserializable.map .string

/-- The reply holds a description of the value, and tells of no exception. -/
structure Answers (v : Value) (reply : Json) : Prop where
  exists_result : ∃ (members : List (String × Json)) (r : RemoteObject) (doc : Json), reply = .object members ∧
    (members.map Prod.fst).Nodup ∧ members.lookup "exceptionDetails" = none ∧
    members.lookup "result" = some doc ∧ Writes r doc ∧ v.Shown r

section Reading

variable {room : Nat} {found : List (String × Document)} {name : String}

theorem withDefault_string {s default : String} (h : found.lookup name = some (.string (some s))) :
    Reader.Fields.withDefault ⟨room, found⟩ name Reader.string default = some s := by
  simp [Reader.Fields.withDefault, h, Reader.string]

theorem optional_string {s : Option String} (h : found.lookup name = (s.map Json.string).map Document.ofJson) :
    Reader.Fields.optional ⟨room, found⟩ name Reader.string = some s := by
  cases s with
  | none => simp [Reader.Fields.optional, Reader.Fields.withDefault, h]
  | some s => simp [Reader.Fields.optional, Reader.Fields.withDefault, h, Document.ofJson, Reader.optional, Reader.string]

/-- What is read of a value that a description may hold; of null nothing is. -/
def ReadsAs (value : Option Json) (result : Option Json) : Prop :=
  ∀ room, match value with
    | none => result = none
    | some v => Reader.optional Reader.json room (Document.ofJson v) = some result

theorem optional_value {value result : Option Json} (hreads : ReadsAs value result)
    (h : found.lookup name = value.map Document.ofJson) :
    Reader.Fields.optional ⟨room, found⟩ name Reader.json = some result := by
  have hroom := hreads room
  cases value with
  | none =>
    obtain rfl : result = none := hroom
    simp [Reader.Fields.optional, Reader.Fields.withDefault, h]
  | some v => simpa [Reader.Fields.optional, Reader.Fields.withDefault, h] using hroom

/-- A description is read back from a document, but for a null that it holds. -/
theorem reader_of_writes {r : RemoteObject} {doc : Json} {value : Option Json} (h : Writes r doc)
    (hvalue : ReadsAs r.value value) (room : Nat) :
    RemoteObject.reader (room + 1) (Document.ofJson doc) = some { r with value := value } := by
  obtain ⟨members, rfl, hkeys, hkind, hsubtype, hid, hheld, htext, hspelling⟩ := h.exists_members
  obtain ⟨found, hfound, hlookup⟩ := Json.exists_membersNamed
    ["type", "subtype", "objectId", "value", "description", "unserializableValue"] hkeys
  have hfields : Reader.fields ["type", "subtype", "objectId", "value", "description", "unserializableValue"]
      (room + 1) (Document.ofJson (.object members)) = some ⟨room, found⟩ := by
    simp [Reader.fields, Document.ofJson, hfound]
  have hreadKind : Reader.Fields.withDefault ⟨room, found⟩ "type" Reader.string "" = some r.kind :=
    withDefault_string (by rw [hlookup _ (by simp), hkind]; rfl)
  have hreadSubtype : Reader.Fields.optional ⟨room, found⟩ "subtype" Reader.string = some r.subtype :=
    optional_string (by rw [hlookup _ (by simp), hsubtype])
  have hreadId : Reader.Fields.optional ⟨room, found⟩ "objectId" Reader.string = some r.objectId :=
    optional_string (by rw [hlookup _ (by simp), hid])
  have hreadValue : Reader.Fields.optional ⟨room, found⟩ "value" Reader.json = some value :=
    optional_value hvalue (by rw [hlookup _ (by simp), hheld])
  have hreadText : Reader.Fields.optional ⟨room, found⟩ "description" Reader.string = some r.description :=
    optional_string (by rw [hlookup _ (by simp), htext])
  have hreadSpelling : Reader.Fields.optional ⟨room, found⟩ "unserializableValue" Reader.string =
      some r.unserializable := optional_string (by rw [hlookup _ (by simp), hspelling])
  unfold RemoteObject.reader
  simp [hfields, hreadKind, hreadSubtype, hreadId, hreadValue, hreadText, hreadSpelling]

end Reading

/-! ### What still counts as true -/

/-- A spelling that ends in a letter is not that of negative zero. -/
theorem append_n_ne (s : String) : s ++ "n" ≠ "-0" := by
  intro h
  have hlast : (s ++ "n").toList.getLast? = "-0".toList.getLast? := by rw [h]
  simp at hlast

/-- The description of a value that is not lost counts as true exactly when the value does. -/
theorem isTruthy_of_shown {v : Value} {r : RemoteObject} (h : v.Shown r) :
    ∃ value, ReadsAs r.value value ∧ { r with value := value }.isTruthy = (v.isTrue && !v.isLost) := by
  cases h with
  | undefined text => exact ⟨none, fun _ => rfl, rfl⟩
  | null text => exact ⟨none, fun _ => rfl, rfl⟩
  | bool b text => exact ⟨some (.bool b), fun _ => rfl, (Bool.and_true b).symm⟩
  | string s text => exact ⟨some (.string s), fun _ => rfl, (Bool.and_true _).symm⟩
  | number n text => exact ⟨some (.number n), fun _ => rfl, (Bool.and_true _).symm⟩
  | nan text => exact ⟨none, fun _ => rfl, rfl⟩
  | infinity negative text =>
    refine ⟨none, fun _ => rfl, ?_⟩
    cases negative <;> rfl
  | negativeZero text => exact ⟨none, fun _ => rfl, rfl⟩
  | bigint n text =>
    refine ⟨none, fun _ => rfl, ?_⟩
    simp [RemoteObject.isTruthy, RemoteObject.localValue, append_n_ne, Value.isTrue, Value.isLost]
  | reference kind subtype id text hsubtype =>
    refine ⟨none, fun _ => rfl, ?_⟩
    simp [RemoteObject.isTruthy, hsubtype, Value.isTrue, Value.isLost]

theorem isTruthy_of_writes {v : Value} {r : RemoteObject} {doc : Json} (hshown : v.Shown r) (h : Writes r doc) :
    ∃ r', (∀ room, RemoteObject.reader (room + 1) (Document.ofJson doc) = some r') ∧
      r'.isTruthy = (v.isTrue && !v.isLost) := by
  obtain ⟨value, hvalue, htrue⟩ := isTruthy_of_shown hshown
  exact ⟨_, reader_of_writes h hvalue, htrue⟩

/-- Of a reply that describes a value a result is read, and no exception. -/
theorem isTruthy_of_answers {v : Value} {reply : Json} (h : Answers v reply) :
    ∃ r, Evaluation.reader.ofJson? reply = some ⟨r, none⟩ ∧ r.isTruthy = (v.isTrue && !v.isLost) := by
  obtain ⟨members, r, doc, rfl, hkeys, hexception, hresult, hwrites, hshown⟩ := h.exists_result
  obtain ⟨r', hread, htrue⟩ := isTruthy_of_writes hshown hwrites
  obtain ⟨found, hfound, hlookup⟩ := Json.exists_membersNamed ["result", "exceptionDetails"] hkeys
  refine ⟨r', ?_, htrue⟩
  have hinner : found.lookup "result" = some (Document.ofJson doc) := by
    rw [hlookup _ (by simp), hresult]
    rfl
  have houter : found.lookup "exceptionDetails" = none := by
    rw [hlookup _ (by simp), hexception]
    rfl
  simp [Reader.ofJson?, Evaluation.reader, Reader.fields, Document.ofJson, Document.depth, hfound,
    Reader.Fields.withDefault, Reader.Fields.optional, hinner, houter, hread]

end Wayfind.Protocol
