/-
The shortest decimal that reads back as a given double.

A double stands for the interval of reals that round to it; its ends belong to it
when the significand is even.  The shortest decimal in that interval is found by
exact arithmetic on naturals: on the grid of one digit, of two digits, and so on,
the two neighbours of the value are tested, and the first grid with a hit wins.
Seventeen digits always suffice.
-/

namespace Wayfind.Decimal

/-- A finite double without its sign, `significand * 2 ^ exponent`. -/
structure Binary where
  significand : Nat
  exponent : Int
  /-- The gap to the double below is half the gap to the one above. -/
  narrowBelow : Bool
deriving DecidableEq, Repr

/-- The finite double with these bits. -/
def Binary.ofBits (bits : UInt64) : Binary :=
  let biased := ((bits >>> 52) &&& 0x7FF).toNat
  let fraction := (bits &&& 0xFFFFFFFFFFFFF).toNat
  if biased == 0 then ⟨fraction, -1074, false⟩
  else ⟨0x10000000000000 + fraction, (biased : Int) - 1075, fraction == 0 && biased > 1⟩

/-- The decimal `digits * 10 ^ exponent`. -/
structure Scaled where
  digits : Nat
  exponent : Int
deriving DecidableEq, Repr

/-- Compares `a * 10 ^ i` with `n * 2 ^ j` exactly. -/
def compareScaled (a : Nat) (i : Int) (n : Nat) (j : Int) : Ordering :=
  compare (a * Nat.pow 10 i.toNat * Nat.pow 2 (-j).toNat)
    (n * Nat.pow 2 j.toNat * Nat.pow 10 (-i).toNat)

/-- The decimal lies in the interval of reals that round to the double. -/
def Binary.readsBack (x : Binary) (d : Scaled) : Bool :=
  let low := if x.narrowBelow then 4 * x.significand - 1 else 4 * x.significand - 2
  let high := 4 * x.significand + 2
  let closed := x.significand % 2 == 0
  let atLow := compareScaled d.digits d.exponent low (x.exponent - 2)
  let atHigh := compareScaled d.digits d.exponent high (x.exponent - 2)
  (atLow == .gt || (closed && atLow == .eq)) && (atHigh == .lt || (closed && atHigh == .eq))

/-- The least `k` with the double below `10 ^ k`, searched upwards from `k`. -/
def Binary.scaleFrom (x : Binary) (k : Int) : Nat → Int
  | 0 => k
  | fuel + 1 =>
    if compareScaled 1 k x.significand x.exponent == .gt then k else x.scaleFrom (k + 1) fuel

/-- The least `k` with the double below `10 ^ k`. -/
def Binary.scale (x : Binary) : Int :=
  let binary := (x.significand.log2 : Int) + x.exponent
  x.scaleFrom (binary * 30103 / 100000 - 1) 5

/-- The largest multiple of `10 ^ i` that the double does not fall below, as a count. -/
def Binary.floorAt (x : Binary) (i : Int) : Nat :=
  (x.significand * Nat.pow 2 x.exponent.toNat * Nat.pow 10 (-i).toNat) /
    (Nat.pow 2 (-x.exponent).toNat * Nat.pow 10 i.toNat)

/-- The neighbour of the double on the grid of `10 ^ i` that reads back and is nearest to it. -/
def Binary.onGrid (x : Binary) (i : Int) : Option Scaled :=
  let below : Scaled := ⟨x.floorAt i, i⟩
  let above : Scaled := ⟨x.floorAt i + 1, i⟩
  match x.readsBack below, x.readsBack above with
  | false, false => none
  | true, false => some below
  | false, true => some above
  | true, true =>
    match compareScaled (below.digits + above.digits) i (2 * x.significand) x.exponent with
    | .gt => some below
    | .lt => some above
    | .eq => some (if below.digits % 2 == 0 then below else above)

/-- The decimal without the zeros its digits end with. -/
def Scaled.strip (d : Scaled) : Nat → Scaled
  | 0 => d
  | fuel + 1 =>
    if d.digits % 10 == 0 && d.digits != 0 then Scaled.strip ⟨d.digits / 10, d.exponent + 1⟩ fuel
    else d

/-- The shortest decimal that reads back as the nonzero double. -/
def Binary.shortest (x : Binary) : Scaled :=
  let scale := x.scale
  let candidates := (List.range 17).findSome? fun n => x.onGrid (scale - (n + 1 : Nat))
  (candidates.getD ⟨x.floorAt (scale - 17), scale - 17⟩).strip 20

/-- The digits of the shortest decimal, and the place of its point counted from their start. -/
def shortestDigits (value : Float) : List Char × Int :=
  let d := (Binary.ofBits value.toBits).shortest
  let digits := Nat.toDigits 10 d.digits
  (digits, digits.length + d.exponent)

end Wayfind.Decimal
