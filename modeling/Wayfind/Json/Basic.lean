/-
Documents as values.

An object is a list of members.  Free documents keep their members in ascending
order of keys and each key once (`ofMembers` puts them so, the last of two equal keys
wins); records that are written out keep the order of their fields.
-/
import Wayfind.Json.Number

namespace Wayfind

/-- A document. -/
inductive Json where
  | null
  | bool (value : Bool)
  | number (value : Json.Number)
  | string (value : String)
  | array (items : List Json)
  | object (members : List (String × Json))
deriving Inhabited

namespace Json

/-- Puts a member at its place in ascending key order, over an earlier one of that key. -/
def insertMember (key : String) (value : Json) : List (String × Json) → List (String × Json)
  | [] => [(key, value)]
  | (k, v) :: rest =>
    if key < k then (key, value) :: (k, v) :: rest
    else if key = k then (key, value) :: rest
    else (k, v) :: insertMember key value rest

/-- An object with its members in key order; of equal keys the last wins. -/
def ofMembers (members : List (String × Json)) : Json :=
  .object (members.foldl (fun sorted (k, v) => insertMember k v sorted) [])

/-- An integer. -/
def int (n : Int) : Json := .number (.integer n)

/-- A natural number. -/
def nat (n : Nat) : Json := .number (.integer n)

/-- A double; without a finite value it is null. -/
def float (f : Float) : Json := if f.isFinite then .number (.double f) else .null

/-- A list of strings. -/
def strings (items : List String) : Json := .array (items.map .string)

/-- A value that may be missing, as null when it is. -/
def orNull (value : Option Json) : Json := value.getD .null

mutual

/-- Equality of documents, with numbers compared as numbers of one kind. -/
def same : Json → Json → Bool
  | .null, .null => true
  | .bool a, .bool b => a == b
  | .number a, .number b => a.same b
  | .string a, .string b => a == b
  | .array a, .array b => sameItems a b
  | .object a, .object b => sameMembers a b
  | _, _ => false

/-- Equality of items, one by one. -/
def sameItems : List Json → List Json → Bool
  | [], [] => true
  | a :: as, b :: bs => same a b && sameItems as bs
  | _, _ => false

/-- Equality of members, one by one. -/
def sameMembers : List (String × Json) → List (String × Json) → Bool
  | [], [] => true
  | (k, a) :: as, (l, b) :: bs => k == l && same a b && sameMembers as bs
  | _, _ => false

end

/-- The member of an object under a key. -/
def member? (key : String) : Json → Option Json
  | .object members => members.lookup key
  | _ => none

/-- The item of an array at a place. -/
def item? (place : Nat) : Json → Option Json
  | .array items => items[place]?
  | _ => none

/-- The member of an object under a key, null when there is none. -/
def member (key : String) (doc : Json) : Json := (doc.member? key).getD .null

/-- The item of an array at a place, null when there is none. -/
def item (place : Nat) (doc : Json) : Json := (doc.item? place).getD .null

/-- The text of a string. -/
def string? : Json → Option String
  | .string s => some s
  | _ => none

/-- The value of a boolean. -/
def bool? : Json → Option Bool
  | .bool b => some b
  | _ => none

/-- The value of an integer. -/
def int? : Json → Option Int
  | .number (.integer n) => some n
  | _ => none

/-- The value of an integer that is not negative. -/
def nat? : Json → Option Nat
  | .number (.integer n) => if n < 0 then none else some n.toNat
  | _ => none

/-- The value of a number as a double. -/
def float? : Json → Option Float
  | .number n => some n.toFloat
  | _ => none

/-- The items of an array. -/
def items? : Json → Option (List Json)
  | .array items => some items
  | _ => none

/-- The members of an object. -/
def members? : Json → Option (List (String × Json))
  | .object members => some members
  | _ => none

/-- The object with one member set; any other document becomes an object first. -/
def setMember (key : String) (value : Json) : Json → Json
  | .object members => .object (insertMember key value members)
  | _ => .object [(key, value)]

end Json

end Wayfind
