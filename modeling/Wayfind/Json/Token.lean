/-
The tokens of a document text.

A string token keeps no value when one of its escapes is half of a surrogate pair
that lacks the other half, and a number token none when it lies beyond the doubles:
such a token is well formed, and only a reader that asks for its value fails.
-/
import Wayfind.Json.Basic

namespace Wayfind.Json

/-- A token of a document text. -/
inductive Token where
  | openArray | closeArray | openObject | closeObject | colon | comma
  | null | bool (value : Bool)
  | number (value : Option Number)
  | string (value : Option String)
deriving DecidableEq

namespace Token

/-- A part of a quoted string: a character, or a unit written with four hexadecimal digits. -/
inductive Part where
  | char (c : Char)
  | code (n : Nat)
deriving DecidableEq, Repr

/-- The value of a hexadecimal digit. -/
def hexValue (c : Char) : Option Nat :=
  if '0' ≤ c && c ≤ '9' then some (c.toNat - '0'.toNat)
  else if 'a' ≤ c && c ≤ 'f' then some (c.toNat - 'a'.toNat + 10)
  else if 'A' ≤ c && c ≤ 'F' then some (c.toNat - 'A'.toNat + 10)
  else none

/-- The value of four hexadecimal digits. -/
def hexQuad (a b c d : Char) : Option Nat := do
  return (((← hexValue a) * 16 + (← hexValue b)) * 16 + (← hexValue c)) * 16 + (← hexValue d)

/-- The character after the backslash of a short escape. -/
def shortEscape : Char → Option Char
  | '"' => some '"'
  | '\\' => some '\\'
  | '/' => some '/'
  | 'b' => some '\x08'
  | 'f' => some '\x0c'
  | 'n' => some '\n'
  | 'r' => some '\r'
  | 't' => some '\t'
  | _ => none

/-- The units up to the closing quote, and the text behind it. -/
def units : List Char → Option (List Part × List Char)
  | [] => none
  | '"' :: rest => some ([], rest)
  | '\\' :: 'u' :: a :: b :: c :: d :: rest => do
    let n ← hexQuad a b c d
    let (us, rest) ← units rest
    return (.code n :: us, rest)
  | '\\' :: e :: rest => do
    let c ← shortEscape e
    let (us, rest) ← units rest
    return (.char c :: us, rest)
  | c :: rest =>
    if c.toNat < 0x20 || c = '\\' then none
    else do
      let (us, rest) ← units rest
      return (.char c :: us, rest)

/-- The first half of a surrogate pair. -/
def isHigh (n : Nat) : Bool := 0xD800 ≤ n && n ≤ 0xDBFF

/-- The second half of a surrogate pair. -/
def isLow (n : Nat) : Bool := 0xDC00 ≤ n && n ≤ 0xDFFF

/-- The characters of the units; none when half of a surrogate pair stands alone. -/
def join : List Part → Option (List Char)
  | [] => some []
  | .char c :: rest => (join rest).map (c :: ·)
  | .code n :: rest =>
    if isHigh n then
      match rest with
      | .code m :: rest =>
        if isLow m then
          (join rest).map (Char.ofNat (0x10000 + (n - 0xD800) * 0x400 + (m - 0xDC00)) :: ·)
        else none
      | _ => none
    else if isLow n then none
    else (join rest).map (Char.ofNat n :: ·)

/-- The digits a text starts with, and the rest. -/
def digits (cs : List Char) : List Char × List Char :=
  (cs.takeWhile Char.isDigit, cs.dropWhile Char.isDigit)

/-- The whole part of a number: a zero alone, or digits that start with another one. -/
def wholePart : List Char → Option (List Char × List Char)
  | '0' :: rest => some (['0'], rest)
  | cs => match digits cs with
    | ([], _) => none
    | found => some found

/-- The fraction of a number, when a point follows. -/
def fractionPart : List Char → Option (Option (List Char) × List Char)
  | '.' :: rest => match digits rest with
    | ([], _) => none
    | (ds, rest) => some (some ds, rest)
  | cs => some (none, cs)

/-- The digits of an exponent with a given sign. -/
def exponentDigits (negative : Bool) (cs : List Char) :
    Option (Option (Bool × List Char) × List Char) :=
  match digits cs with
  | ([], _) => none
  | (ds, rest) => some (some (negative, ds), rest)

/-- The exponent of a number, when an `e` follows. -/
def exponentPart : List Char → Option (Option (Bool × List Char) × List Char)
  | c :: rest =>
    if c = 'e' || c = 'E' then
      match rest with
      | '+' :: rest => exponentDigits false rest
      | '-' :: rest => exponentDigits true rest
      | rest => exponentDigits false rest
    else some (none, c :: rest)
  | [] => some (none, [])

/-- A number literal, and the text behind it. -/
def literal (cs : List Char) : Option (Literal × List Char) := do
  let (negative, cs) := match cs with
    | '-' :: rest => (true, rest)
    | cs => (false, cs)
  let (whole, cs) ← wholePart cs
  let (fraction, cs) ← fractionPart cs
  let (exponent, cs) ← exponentPart cs
  return (⟨negative, whole, fraction, exponent⟩, cs)

/-- Blanks between tokens. -/
def isSpace (c : Char) : Bool := c = ' ' || c = '\t' || c = '\n' || c = '\r'

/-- The token a text starts with, and the rest; the text does not start with a blank. -/
def first? : List Char → Option (Token × List Char)
  | [] => none
  | '[' :: rest => some (.openArray, rest)
  | ']' :: rest => some (.closeArray, rest)
  | '{' :: rest => some (.openObject, rest)
  | '}' :: rest => some (.closeObject, rest)
  | ':' :: rest => some (.colon, rest)
  | ',' :: rest => some (.comma, rest)
  | 'n' :: 'u' :: 'l' :: 'l' :: rest => some (.null, rest)
  | 't' :: 'r' :: 'u' :: 'e' :: rest => some (.bool true, rest)
  | 'f' :: 'a' :: 'l' :: 's' :: 'e' :: rest => some (.bool false, rest)
  | '"' :: rest => (units rest).map fun (us, rest) => (.string ((join us).map String.ofList), rest)
  | cs => (literal cs).map fun (l, rest) => (.number l.value, rest)

/-- The tokens of a text, taken one at a time; each takes at least one character. -/
def scanWithin : Nat → List Char → Option (List Token)
  | 0, cs => if cs.all isSpace then some [] else none
  | fuel + 1, cs =>
    match cs.dropWhile isSpace with
    | [] => some []
    | cs => do
      let (token, rest) ← first? cs
      let tokens ← scanWithin fuel rest
      return token :: tokens

/-- The tokens of a text; none when some part of it is no token. -/
def scan (cs : List Char) : Option (List Token) := scanWithin cs.length cs

end Token

end Wayfind.Json
