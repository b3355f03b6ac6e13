/-!
# Decimal — Binary

What a number is: not a number, an infinity, or a whole mantissa times a power of two.
`classify` reads this off the 64 bits, so that everything said about the digits of a number is
said about natural numbers.
-/

namespace Nondet.Decimal

/-- The finite value `± mantissa * 2 ^ exponent`. -/
structure Dyadic where
  negative : Bool
  mantissa : Nat
  exponent : Int
  deriving DecidableEq, Repr, Inhabited

/-- The kinds of number that 64 bits can hold. -/
inductive Kind where
  | nan
  | infinite (negative : Bool)
  | finite (value : Dyadic)
  deriving DecidableEq, Repr, Inhabited

/-- The fraction field has 52 bits. -/
def fractionSize : Nat := 1 <<< 52

/-- The exponent of the smallest positive value. -/
def leastExponent : Int := -1074

/-- The sign bit, eleven bits of exponent and 52 bits of fraction.  The least exponent field marks
values without the leading bit, the greatest one infinities and values that are no number. -/
def ofBits (bits : Nat) : Kind :=
  let negative := bits >>> 63 % 2 == 1
  let field := bits / fractionSize % 2048
  let fraction := bits % fractionSize
  if field = 2047 then
    if fraction = 0 then .infinite negative else .nan
  else if field = 0 then .finite ⟨negative, fraction, leastExponent⟩
  else .finite ⟨negative, fractionSize + fraction, leastExponent + (field - 1 : Nat)⟩

def classify (x : Float) : Kind := ofBits x.toBits.toNat

namespace Dyadic

/-- Below a power of two the values lie twice as dense as above it. -/
def narrowBelow (v : Dyadic) : Bool :=
  v.mantissa == fractionSize && leastExponent < v.exponent

/-- The number nearest to the value; exact when the mantissa has at most 53 bits. -/
def toFloat (v : Dyadic) : Float :=
  let x := (Float.ofNat v.mantissa).scaleB v.exponent
  if v.negative then -x else x

end Dyadic

end Nondet.Decimal
