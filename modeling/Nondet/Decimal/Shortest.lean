import Nondet.Decimal.Binary

/-!
# Decimal — Shortest

The shortest decimal that reads back to a number.  The reals that round to a value form an
interval around it, with both ends when the mantissa is even.  Of the grids of multiples of a
power of ten the coarsest one that meets this interval is taken, and on it the point nearest to
the value.  On that grid no point of the interval is a multiple of ten steps, or the next coarser
grid would have met the interval; so the digits end in no zero.
-/

namespace Nondet.Decimal

/-- The decimal `digits * 10 ^ exponent`. -/
structure Scientific where
  digits : Nat
  exponent : Int
  deriving DecidableEq, Repr, Inhabited

/-- A value seen from a grid of step `10 ^ exponent`, everything multiplied out: the value, the
two ends of its interval and the step, as natural numbers in one unit. -/
structure Scaled where
  value : Nat
  low : Nat
  high : Nat
  step : Nat
  closed : Bool
  deriving Repr

/-- A quarter of the distance to the next value is the unit in which the ends are whole. -/
def Dyadic.scaled (v : Dyadic) (exponent : Int) : Scaled :=
  let unit := Nat.pow 10 (-exponent).toNat <<< (v.exponent - 2).toNat
  { value := 4 * v.mantissa * unit
    low := (4 * v.mantissa - if v.narrowBelow then 1 else 2) * unit
    high := (4 * v.mantissa + 2) * unit
    step := Nat.pow 10 exponent.toNat <<< (2 - v.exponent).toNat
    closed := v.mantissa % 2 == 0 }

namespace Scaled

/-- The grid point `d` lies in the interval. -/
def meets (s : Scaled) (d : Nat) : Bool :=
  if s.closed then s.low ≤ d * s.step && d * s.step ≤ s.high
  else s.low < d * s.step && d * s.step < s.high

/-- The nearest grid point of the interval, among the two around the value; the upper one when
both are equally near. -/
def nearest? (s : Scaled) : Option Nat :=
  let below := s.value / s.step
  let above := below + 1
  match s.meets below, s.meets above with
  | true, true =>
    if above * s.step - s.value ≤ s.value - below * s.step then some above else some below
  | true, false  => some below
  | false, true  => some above
  | false, false => none

end Scaled

/-- No decimal of one digit or more lies above this grid: it overestimates the decimal exponent
of the value. -/
def Dyadic.topExponent (v : Dyadic) : Int :=
  (v.mantissa.log2 + 1 + v.exponent) * 30103 / 100000 + 2

/-- Searches `tries` grids downwards from `10 ^ exponent`. -/
def Dyadic.search (v : Dyadic) : Nat → Int → Scientific
  | 0,         exponent => ⟨v.mantissa, exponent⟩
  | tries + 1, exponent =>
    match (v.scaled exponent).nearest? with
    | some digits => ⟨digits, exponent⟩
    | none        => v.search tries (exponent - 1)

/-- The shortest decimal of a positive value.  Seventeen digits always suffice and the first
grid is at most a few steps too coarse, so the search ends well within its tries. -/
def Dyadic.shortest (v : Dyadic) : Scientific := v.search 25 v.topExponent

end Nondet.Decimal
