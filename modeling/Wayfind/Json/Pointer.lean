/-
Pointers into documents: paths of keys and places, each behind a slash.

In a key, `~1` stands for a slash and `~0` for a tilde.  A place is written without a
sign and without leading zeros.
-/
import Wayfind.Json.Basic

namespace Wayfind.Json

/-- The characters between slashes, in order. -/
def segments : List Char → List (List Char)
  | [] => [[]]
  | c :: rest =>
    if c = '/' then [] :: segments rest
    else match segments rest with
      | first :: others => (c :: first) :: others
      | [] => [[c]]

/-- The key that a segment writes. -/
def segmentKey : List Char → List Char
  | '~' :: '1' :: rest => '/' :: segmentKey rest
  | '~' :: '0' :: rest => '~' :: segmentKey rest
  | c :: rest => c :: segmentKey rest
  | [] => []

/-- The place that a segment writes. -/
def segmentPlace? (segment : List Char) : Option Nat :=
  match segment with
  | [] => none
  | ['0'] => some 0
  | '0' :: _ => none
  | digits =>
    if digits.all Char.isDigit then
      some (digits.foldl (fun n c => 10 * n + (c.toNat - '0'.toNat)) 0)
    else none

/-- The part of a document that a segment leads to. -/
def follow? (doc : Json) (segment : List Char) : Option Json :=
  match doc with
  | .object members => members.lookup (String.ofList (segmentKey segment))
  | .array items => do items[← segmentPlace? (segmentKey segment)]?
  | _ => none

/-- The part of a document that a pointer leads to. -/
def pointer? (path : String) (doc : Json) : Option Json :=
  match path.toList with
  | [] => some doc
  | '/' :: rest => (segments rest).foldlM follow? doc
  | _ => none

end Wayfind.Json
