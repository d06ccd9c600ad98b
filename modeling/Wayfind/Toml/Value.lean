/-
The values of a configuration text, and how tables grow while it is read.

A table remembers how it came about, since that decides who may add to it: a header
opens a table that was so far only passed through, dotted keys extend only tables that
dotted keys made, and an inline table is never touched again.
-/

namespace Wayfind.Toml

/-- How a table came about. -/
inductive Origin where
  /-- Passed through on the way to the table of a header. -/
  | passed
  /-- Opened by a header of its own. -/
  | header
  /-- Made by a dotted key. -/
  | dotted
  /-- Written inline. -/
  | inline
deriving DecidableEq, Repr

/-- A value. -/
inductive Value where
  | string (text : String)
  | integer (n : Int)
  | float
  | boolean (b : Bool)
  | date
  | array (items : List Value)
  | table (origin : Origin) (entries : List (String × Value))
  /-- A list of tables, one for each double-bracketed header; the last one is open. -/
  | tables (items : List (List (String × Value)))
deriving Inhabited

/-- The entries of a table, in order. -/
abbrev Entries := List (String × Value)

/-- The entries with the value of one key replaced, or put at the end. -/
def Entries.set (key : String) (value : Value) : Entries → Entries
  | [] => [(key, value)]
  | (k, v) :: rest => if k = key then (key, value) :: rest else (k, v) :: Entries.set key value rest

/-- Adds a value under a dotted key; none when a part of it is taken otherwise.  The key may pass
through tables that no header has opened yet, but ends only in the table it starts from and in
tables that dotted keys made, as `fits` tells of the table at hand. -/
def Entries.insert (fits : Bool) (entries : Entries) (value : Value) : List String → Option Entries
  | [] => none
  | [key] =>
    if fits && (entries.lookup key).isNone then some (entries ++ [(key, value)]) else none
  | key :: path =>
    match entries.lookup key with
    | none =>
      (Entries.insert true [] value path).map fun inner => entries ++ [(key, .table .dotted inner)]
    | some (.table .dotted inner) =>
      (Entries.insert true inner value path).map fun inner =>
        Entries.set key (.table .dotted inner) entries
    | some (.table .passed inner) =>
      (Entries.insert false inner value path).map fun inner =>
        Entries.set key (.table .passed inner) entries
    | some (.tables items) =>
      match items.reverse with
      | [] => none
      | last :: before =>
        (Entries.insert false last value path).map fun inner =>
          Entries.set key (.tables (inner :: before).reverse) entries
    | some _ => none

/-- Applies a change to the table at a path, making the tables on the way. -/
def Entries.modifyAt (change : Entries → Option Entries) (entries : Entries) :
    List String → Option Entries
  | [] => change entries
  | key :: path =>
    match entries.lookup key with
    | none =>
      (Entries.modifyAt change [] path).map fun inner => entries ++ [(key, .table .passed inner)]
    | some (.table .inline _) => none
    | some (.table origin inner) =>
      (Entries.modifyAt change inner path).map fun inner =>
        Entries.set key (.table origin inner) entries
    | some (.tables items) =>
      match items.reverse with
      | [] => none
      | last :: before =>
        (Entries.modifyAt change last path).map fun inner =>
          Entries.set key (.tables (inner :: before).reverse) entries
    | some _ => none

/-- Opens the table of a header. -/
def Entries.openTable (key : String) (entries : Entries) : Option Entries :=
  match entries.lookup key with
  | none => some (entries ++ [(key, .table .header [])])
  | some (.table .passed inner) => some (Entries.set key (.table .header inner) entries)
  | some _ => none

/-- Opens a further table of a double-bracketed header. -/
def Entries.openItem (key : String) (entries : Entries) : Option Entries :=
  match entries.lookup key with
  | none => some (entries ++ [(key, .tables [[]])])
  | some (.tables items) => some (Entries.set key (.tables (items ++ [[]])) entries)
  | some _ => none

end Wayfind.Toml
