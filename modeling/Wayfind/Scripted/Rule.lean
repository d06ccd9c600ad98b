/-
Rules by which a scripted peer answers commands.

The first rule that fits a command answers it.  A rule may ask for a method, for a part
of the page function that is called, for values at places in the parameters, and for not
having been used too often.  The texts of an answer hold placeholders, which stand for
the number of the use and for what the command names.
-/
import Wayfind.Json.Pointer
import Wayfind.Json.Writer

namespace Wayfind.Scripted

/-- A rule with an answer of some kind. -/
structure Rule (A : Type) where
  method : Option String
  /-- Stands in the page function. -/
  script : Option String
  /-- How often the rule may be used. -/
  limit : Option Nat
  /-- Values at places in the parameters. -/
  conditions : List (String × Json)
  answer : A
  /-- How often the rule was used. -/
  uses : Nat

namespace Rule

variable {A : Type}

/-- The page function in parameters. -/
def scriptOf (params : Json) : String := ((params.member "functionDeclaration").string?).getD ""

/-- The rule fits a command. -/
def fits (r : Rule A) (method : String) (params : Json) : Bool :=
  r.method.all (· == method) &&
  r.script.all (fun s => (scriptOf params).contains s) &&
  r.limit.all (r.uses < ·) &&
  r.conditions.all fun (path, value) => (params.pointer? path).any (Json.same value)

/-- Uses the first rule that fits: the rule, its use counted, and all rules after that. -/
def use? (method : String) (params : Json) : List (Rule A) → Option (Rule A × List (Rule A))
  | [] => none
  | r :: rest =>
    if r.fits method params then
      let used := { r with uses := r.uses + 1 }
      some (used, used :: rest)
    else (use? method params rest).map fun (used, rest) => (used, r :: rest)

end Rule

/-- What placeholders stand for, in the order they are filled in. -/
abbrev Filling := List (String × String)

/-- A text with its placeholders filled in. -/
def Filling.fill (f : Filling) (text : String) : String :=
  f.foldl (fun text (name, value) => text.replace name value) text

mutual

/-- A document with the placeholders in its texts filled in. -/
def Filling.fillJson (f : Filling) : Json → Json
  | .string s => .string (f.fill s)
  | .array items => .array (f.fillItems items)
  | .object members => .object (f.fillMembers members)
  | other => other

/-- Items with their placeholders filled in. -/
def Filling.fillItems (f : Filling) : List Json → List Json
  | [] => []
  | item :: rest => f.fillJson item :: f.fillItems rest

/-- Members with the placeholders in their values filled in. -/
def Filling.fillMembers (f : Filling) : List (String × Json) → List (String × Json)
  | [] => []
  | (key, value) :: rest => (key, f.fillJson value) :: f.fillMembers rest

end

/-- A document in the middle of a text: a text as it is, any other as it is written. -/
def inText : Json → String
  | .string s => s
  | other => other.compact

/-- What the placeholders in the answer to a command stand for. -/
def Filling.ofCommand (uses : Nat) (params : Json) : Filling := [
  ("\x7bn\x7d", toString uses),
  ("\x7bobject\x7d", inText (params.member "objectId")),
  ("\x7bbackend\x7d", inText (params.member "backendNodeId"))]

/-- A description of an object, as the result of an evaluation. -/
def objectResult (id : String) : Json :=
  .object [("result", .object [("objectId", .string id), ("type", .string "object")])]

/-- The result of a command that no rule fits. -/
def usualResult (method : String) (params : Json) : Json :=
  match method with
  | "Runtime.evaluate" =>
    if (params.member "expression").string? = some "globalThis" then objectResult "global"
    else objectResult "util"
  | "Runtime.callFunctionOn" => .object [("result", .object [("type", .string "undefined")])]
  | _ => .object []

end Wayfind.Scripted
