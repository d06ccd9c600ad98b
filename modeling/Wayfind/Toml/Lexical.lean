/-
The words of a configuration text: blanks, comments, strings, numbers and dates.

Each reader takes the text it is to start at and gives what it read and the text
behind; none when the text does not start with such a word.
-/
import Wayfind.Json.Token

namespace Wayfind.Toml

/-- Reads something off the start of a text. -/
abbrev Read (α : Type) := List Char → Option (α × List Char)

/-- A blank inside a line. -/
def isSpace (c : Char) : Bool := c = ' ' || c = '\t'

/-- The text behind the blanks it starts with. -/
def skipSpace (cs : List Char) : List Char := cs.dropWhile isSpace

/-- A character that may stand in a comment, and in a string apart from quotes and escapes. -/
def isPlain (c : Char) : Bool :=
  c = '\t' || (0x20 ≤ c.toNat && c.toNat ≤ 0x7E) || 0x80 ≤ c.toNat

/-- The text behind a line end. -/
def lineEnd : List Char → Option (List Char)
  | '\n' :: rest => some rest
  | '\r' :: '\n' :: rest => some rest
  | _ => none

/-- The text behind a comment, when there is one. -/
def skipComment : List Char → List Char
  | '#' :: rest => rest.dropWhile isPlain
  | cs => cs

/-- The text behind blanks, comments and line ends. -/
def skipLines : Nat → List Char → List Char
  | 0, cs => cs
  | fuel + 1, cs =>
    let cs := skipComment (skipSpace cs)
    match lineEnd cs with
    | some rest => skipLines fuel rest
    | none => cs

/-- The character with a code written in hexadecimal digits. -/
def codePoint (digits : List Char) : Option Char := do
  let n ← digits.foldlM (fun n c => (Json.Token.hexValue c).map (n * 16 + ·)) 0
  if n < 0xD800 || (0xE000 ≤ n && n < 0x110000) then some (Char.ofNat n) else none

/-- The character of an escape, behind its backslash. -/
def escape : Read Char
  | 'b' :: rest => some ('\x08', rest)
  | 't' :: rest => some ('\t', rest)
  | 'n' :: rest => some ('\n', rest)
  | 'f' :: rest => some ('\x0c', rest)
  | 'r' :: rest => some ('\r', rest)
  | '"' :: rest => some ('"', rest)
  | '\\' :: rest => some ('\\', rest)
  | 'u' :: rest => do
    if rest.length < 4 then none else return (← codePoint (rest.take 4), rest.drop 4)
  | 'U' :: rest => do
    if rest.length < 8 then none else return (← codePoint (rest.take 8), rest.drop 8)
  | _ => none

/-- A string of one line, behind its opening quote. -/
def basicString : Nat → Read (List Char)
  | 0, _ => none
  | _, '"' :: rest => some ([], rest)
  | fuel + 1, '\\' :: rest => do
    let (c, rest) ← escape rest
    let (cs, rest) ← basicString fuel rest
    return (c :: cs, rest)
  | fuel + 1, c :: rest =>
    if isPlain c then do
      let (cs, rest) ← basicString fuel rest
      return (c :: cs, rest)
    else none
  | _, [] => none

/-- A string of one line without escapes, behind its opening quote. -/
def literalString : Read (List Char)
  | '\'' :: rest => some ([], rest)
  | c :: rest =>
    if isPlain c then (literalString rest).map fun (cs, rest) => (c :: cs, rest) else none
  | [] => none

/-- The end of a string of several lines: its quotes, of which up to two belong to the string. -/
def closeLong (quote : Char) (cs : List Char) : Option (List Char × List Char) :=
  let count := (cs.takeWhile (· = quote)).length
  if count < 3 then none
  else
    let inside := min (count - 3) 2
    some (List.replicate inside quote, cs.drop (inside + 3))

/-- The text behind a backslash that ends a line, and behind the blanks that follow. -/
def continuation (cs : List Char) : Option (List Char) := do
  let rest ← lineEnd (skipSpace cs)
  return skipBlank rest.length rest
where
  /-- The text behind blanks and line ends. -/
  skipBlank : Nat → List Char → List Char
    | 0, cs => cs
    | fuel + 1, cs =>
      match lineEnd (skipSpace cs) with
      | some rest => skipBlank fuel rest
      | none => skipSpace cs

/-- The rest of a string of several lines; a line end of either kind counts as a line break. -/
def longString (quote : Char) (escapes : Bool) : Nat → Read (List Char)
  | 0, _ => none
  | fuel + 1, cs =>
    match closeLong quote cs with
    | some found => some found
    | none =>
      match lineEnd cs, cs with
      | some rest, _ => (longString quote escapes fuel rest).map fun (s, rest) => ('\n' :: s, rest)
      | none, [] => none
      | none, c :: rest =>
        if escapes && c = '\\' then
          match continuation rest with
          | some rest => longString quote escapes fuel rest
          | none => do
            let (c, rest) ← escape rest
            let (s, rest) ← longString quote escapes fuel rest
            return (c :: s, rest)
        else if isPlain c then
          (longString quote escapes fuel rest).map fun (s, rest) => (c :: s, rest)
        else none

/-- A string of several lines, behind its opening quotes; a line end right there is left out. -/
def openLong (quote : Char) (escapes : Bool) (cs : List Char) : Option (List Char × List Char) :=
  let cs := (lineEnd cs).getD cs
  longString quote escapes (cs.length + 1) cs

/-- A string in any of its four forms. -/
def string : Read (List Char)
  | '"' :: '"' :: '"' :: rest => openLong '"' true rest
  | '\'' :: '\'' :: '\'' :: rest => openLong '\'' false rest
  | '"' :: rest => basicString (rest.length + 1) rest
  | '\'' :: rest => literalString rest
  | _ => none

/-- A character of a bare key. -/
def isBare (c : Char) : Bool := c.isAlphanum || c = '_' || c = '-'

/-- One part of a key. -/
def keyPart : Read String
  | '"' :: rest => (basicString (rest.length + 1) rest).map fun (cs, rest) => (String.ofList cs, rest)
  | '\'' :: rest => (literalString rest).map fun (cs, rest) => (String.ofList cs, rest)
  | cs =>
    let word := cs.takeWhile isBare
    if word = [] then none else some (String.ofList word, cs.dropWhile isBare)

/-- The greatest number of parts of a key. -/
def maxParts : Nat := 79

/-- A key of at most so many parts: dots between them, blanks around each. -/
def keyWithin : Nat → Read (List String)
  | 0, _ => none
  | room + 1, cs => do
    let (part, rest) ← keyPart (skipSpace cs)
    match skipSpace rest with
    | '.' :: rest =>
      let (parts, rest) ← keyWithin room rest
      return (part :: parts, rest)
    | rest => return ([part], rest)

/-- A key: parts with dots between them, blanks around each. -/
def key : Read (List String) := keyWithin maxParts

/-- Digits with single underscores between them. -/
def digits (isDigit : Char → Bool) : Nat → Read (List Char)
  | 0, _ => none
  | fuel + 1, c :: rest =>
    if isDigit c then
      match rest with
      | '_' :: rest => (digits isDigit fuel rest).map fun (ds, rest) => (c :: ds, rest)
      | d :: rest =>
        if isDigit d then (digits isDigit fuel (d :: rest)).map fun (ds, rest) => (c :: ds, rest)
        else some ([c], d :: rest)
      | [] => some ([c], [])
    else none
  | _, [] => none

/-- The value of digits in a base. -/
def number (base : Nat) (ds : List Char) : Nat :=
  ds.foldl (fun n c => n * base + ((Json.Token.hexValue c).getD 0)) 0

/-- Two digits as a number within bounds, ends included. -/
def pair (low high : Nat) : Read Nat
  | a :: b :: rest =>
    if a.isDigit && b.isDigit && low ≤ number 10 [a, b] && number 10 [a, b] ≤ high then
      some (number 10 [a, b], rest)
    else none
  | _ => none

/-- The days of a month. -/
def daysOf (year month : Nat) : Nat :=
  if month = 2 then
    if (year % 4 = 0 && year % 100 ≠ 0) || year % 400 = 0 then 29 else 28
  else if month = 4 || month = 6 || month = 9 || month = 11 then 30
  else 31

/-- The text behind a given character. -/
def expect (c : Char) : List Char → Option (List Char)
  | d :: rest => if d = c then some rest else none
  | [] => none

/-- The text behind a date. -/
def fullDate (cs : List Char) : Option (List Char) := do
  let year := cs.take 4
  if year.length = 4 && year.all Char.isDigit then do
    let (month, rest) ← pair 1 12 (← expect '-' (cs.drop 4))
    let (_, rest) ← pair 1 (daysOf (number 10 year) month) (← expect '-' rest)
    return rest
  else none

/-- The text behind a time of day. -/
def timeOfDay (cs : List Char) : Option (List Char) := do
  let (_, rest) ← pair 0 23 cs
  let (_, rest) ← pair 0 59 (← expect ':' rest)
  let (_, rest) ← pair 0 60 (← expect ':' rest)
  match rest with
  | '.' :: rest =>
    let fraction := rest.takeWhile Char.isDigit
    if fraction = [] then none else return rest.dropWhile Char.isDigit
  | rest => return rest

/-- The text behind an offset from universal time, when there is one. -/
def offset : List Char → Option (List Char)
  | c :: rest =>
    if c = 'Z' || c = 'z' then some rest
    else if c = '+' || c = '-' then do
      let (_, rest) ← pair 0 23 rest
      let (_, rest) ← pair 0 59 (← expect ':' rest)
      return rest
    else some (c :: rest)
  | [] => some []

/-- The text behind a date, a time of day, or both. -/
def dateTime (cs : List Char) : Option (List Char) :=
  match fullDate cs with
  | some (c :: rest) =>
    if c = 'T' || c = 't' then do offset (← timeOfDay rest)
    else if c = ' ' then
      match timeOfDay rest with
      | some rest => offset rest
      | none => some (c :: rest)
    else some (c :: rest)
  | some [] => some []
  | none => timeOfDay cs

/-- What makes a number a float: the digits of its fraction, and its exponent. -/
structure FloatTail where
  fraction : List Char
  negative : Bool
  exponent : List Char
deriving DecidableEq, Repr

/-- The exponent of a number and the text behind it, when there is one. -/
def exponentPart : List Char → Option (Option (Bool × List Char) × List Char)
  | c :: rest =>
    if c = 'e' || c = 'E' then
      let (negative, rest) := match rest with
        | '+' :: rest => (false, rest)
        | '-' :: rest => (true, rest)
        | rest => (false, rest)
      (digits Char.isDigit (rest.length + 1) rest).map fun (ds, rest) => (some (negative, ds), rest)
    else some (none, c :: rest)
  | [] => some (none, [])

/-- The fraction and the exponent of a number, when at least one of them is there. -/
def floatTail : Read FloatTail
  | '.' :: rest => do
    let (fraction, rest) ← digits Char.isDigit (rest.length + 1) rest
    let (exponent, rest) ← exponentPart rest
    let (negative, exponent) := exponent.getD (false, [])
    return (⟨fraction, negative, exponent⟩, rest)
  | cs => do
    match ← exponentPart cs with
    | (some (negative, exponent), rest) => return (⟨[], negative, exponent⟩, rest)
    | (none, _) => none

/-- The float with these digits before the tail lies beyond the doubles: it is at least halfway
from the greatest of them to the next power of two. -/
def FloatTail.overflows (whole : List Char) (t : FloatTail) : Bool :=
  let ds := (whole ++ t.fraction).dropWhile (· = '0')
  let size : Int := number 10 t.exponent
  let shift := (if t.negative then -size else size) - t.fraction.length
  let place := ds.length + shift
  ds ≠ [] && (place > 309 || (place = 309 &&
    number 10 ds * Nat.pow 10 shift.toNat ≥
      (Nat.pow 2 1024 - Nat.pow 2 970) * Nat.pow 10 (-shift).toNat))

end Wayfind.Toml
