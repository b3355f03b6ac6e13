import Nondet.Decimal.Binary

/-!
# Decimal — Remainder

The remainder of a division that rounds toward zero.  It is computed exactly on mantissas over a
common exponent, so no rounding takes place; the sign is that of the dividend, also on zero.
-/

namespace Nondet.Decimal

/-- Both values over the smaller exponent of the two: the remainder is that of the mantissas. -/
def Dyadic.remainder (a b : Dyadic) : Dyadic :=
  let exponent := min a.exponent b.exponent
  let units (v : Dyadic) := v.mantissa <<< (v.exponent - exponent).toNat
  ⟨a.negative, units a % units b, exponent⟩

/-- There is no remainder of an infinity, nor by zero; any finite value is its own remainder by an
infinity. -/
def remainder (x y : Float) : Float :=
  match classify x, classify y with
  | .finite a, .finite b   => if b.mantissa = 0 then 0.0 / 0.0 else (a.remainder b).toFloat
  | .finite _, .infinite _ => x
  | _, _                   => 0.0 / 0.0

end Nondet.Decimal
