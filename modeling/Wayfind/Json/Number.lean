/-
Numbers of documents.

An integer that fits 64 bits, with or without a sign, stays an integer; every other
number is a double.  A literal is read in two stages: its digits are cut out of the
text first, and then turned into a value.  The value of a literal with a point or an
exponent is computed from a 64-bit significand and a power of ten, so digits beyond
the significand only move the exponent (before the point) or are ignored (behind it).
-/
import Wayfind.Decimal.Layout

namespace Wayfind.Json

/-- A number: an integer of 64 bits, or a double. -/
inductive Number where
  | integer (value : Int)
  | double (value : Float)
deriving DecidableEq

namespace Number

/-- Equal as numbers of one kind; an integer never equals a double. -/
def same : Number → Number → Bool
  | .integer a, .integer b => a == b
  | .double a, .double b => a == b
  | _, _ => false

/-- The nearest double to an integer of 64 bits. -/
def floatOfInt (n : Int) : Float :=
  if n < 0 then -(n.natAbs.toUInt64.toFloat) else n.natAbs.toUInt64.toFloat

/-- The number as a double. -/
def toFloat : Number → Float
  | .integer n => floatOfInt n
  | .double f => f

/-- The text of a number; a double without a finite value is written `null`. -/
def text : Number → List Char
  | .integer n => if n < 0 then '-' :: Nat.toDigits 10 n.natAbs else Nat.toDigits 10 n.natAbs
  | .double f => if f.isFinite then Decimal.documentText f else ['n', 'u', 'l', 'l']

end Number

/-- A number as it stands in a text. -/
structure Literal where
  negative : Bool
  whole : List Char
  fraction : Option (List Char)
  /-- The sign of the exponent, true when negative, and its digits. -/
  exponent : Option (Bool × List Char)
deriving DecidableEq, Repr

namespace Literal

/-- The largest significand that is kept exactly. -/
def maxSignificand : Nat := UInt64.size - 1

/-- The largest exponent that is read; a longer one overflows. -/
def maxExponent : Nat := 0x7FFFFFFF

/-- The value of a decimal digit. -/
def digit (c : Char) : Nat := c.toNat - '0'.toNat

/-- Appends digits to a significand while it fits, and counts the digits taken. -/
def extend (significand taken : Nat) : List Char → Nat × Nat
  | [] => (significand, taken)
  | c :: rest =>
    if significand * 10 + digit c > maxSignificand then (significand, taken)
    else extend (significand * 10 + digit c) (taken + 1) rest

/-- Divides by the largest power of ten until the exponent is within the table of powers. -/
def lower (value : Float) (exponent : Int) : Nat → Float × Int
  | 0 => (value, exponent)
  | fuel + 1 =>
    if exponent ≥ -308 || value == 0 then (value, exponent)
    else lower (value / Float.ofScientific 1 false 308) (exponent + 308) fuel

/-- The double `significand * 10 ^ exponent`, `none` beyond the range of doubles. -/
def scale (significand : Nat) (exponent : Int) : Option Float :=
  let value := significand.toUInt64.toFloat
  if exponent ≥ 0 then
    if exponent > 308 then (if value == 0 then some value else none)
    else
      let scaled := value * Float.ofScientific 1 false exponent.toNat
      if scaled.isInf then none else some scaled
  else
    let (value, exponent) := lower value exponent 4
    if exponent ≥ -308 then some (value / Float.ofScientific 1 false (-exponent).toNat)
    else some value

/-- The sign of the literal put on a magnitude. -/
def signed (l : Literal) (magnitude : Float) : Float :=
  if l.negative then -magnitude else magnitude

/-- The double a literal stands for, `none` beyond the range of doubles. -/
def double (l : Literal) : Option Float :=
  let (significand, taken) := extend 0 0 l.whole
  let shift : Int := l.whole.length - taken
  let (significand, places) := extend significand 0 (l.fraction.getD [])
  let shift := shift - places
  match l.exponent with
  | none => (scale significand shift).map l.signed
  | some (negative, digits) =>
    let size := digits.foldl (fun n c => n * 10 + digit c) 0
    if size > maxExponent then
      if significand != 0 && !negative then none else some (l.signed 0)
    else (scale significand (if negative then shift - size else shift + size)).map l.signed

/-- The number a literal stands for, `none` beyond the range of doubles. -/
def value (l : Literal) : Option Number :=
  let (significand, taken) := extend 0 0 l.whole
  if l.fraction.isSome || l.exponent.isSome || taken < l.whole.length then
    l.double.map .double
  else if !l.negative then some (.integer significand)
  else if significand == 0 || significand > 0x8000000000000000 then
    some (.double (-(significand.toUInt64.toFloat)))
  else some (.integer (-(significand : Int)))

end Literal

end Wayfind.Json
