/-
How the digits of a double are laid out as text.

Two layouts are in use.  The one for documents always shows that a number is a
double: whole values end in `.0`, and very large or small ones carry a signed
exponent.  The one for people is positional throughout.
-/
import Wayfind.Decimal.Shortest

namespace Wayfind.Decimal

/-- Zeros, as digits. -/
def zeros (n : Nat) : List Char :=
  List.replicate n '0'

/-- The digits with the point after the first `place` of them; whole values show no point. -/
def positional (digits : List Char) (place : Int) : List Char :=
  if place ≤ 0 then '0' :: '.' :: (zeros (-place).toNat ++ digits)
  else if place.toNat ≥ digits.length then digits ++ zeros (place.toNat - digits.length)
  else digits.take place.toNat ++ '.' :: digits.drop place.toNat

/-- One digit, the rest behind a point, and a signed exponent of ten. -/
def scientific (digits : List Char) (place : Int) : List Char :=
  let mantissa := match digits with
    | [] => []
    | [d] => [d]
    | d :: rest => d :: '.' :: rest
  let exponent := place - 1
  let sign := if exponent < 0 then '-' else '+'
  mantissa ++ 'e' :: sign :: Nat.toDigits 10 exponent.natAbs

/-- The minus sign of a negative double, negative zero included. -/
def signOf (value : Float) : List Char :=
  if value.toBits >>> 63 == 1 then ['-'] else []

/-- A finite double as documents write it: positional from `1e-5` up to `1e16`, with `.0` when whole. -/
def documentText (value : Float) : List Char :=
  signOf value ++
    if value == 0 then ['0', '.', '0']
    else
      let (digits, place) := shortestDigits value
      if -5 < place && place ≤ 16 then
        let text := positional digits place
        if place ≥ digits.length then text ++ ['.', '0'] else text
      else scientific digits place

/-- A finite double as people read it: positional at every size, without an empty fraction. -/
def plainText (value : Float) : List Char :=
  signOf value ++
    if value == 0 then ['0']
    else
      let (digits, place) := shortestDigits value
      positional digits place

end Wayfind.Decimal
