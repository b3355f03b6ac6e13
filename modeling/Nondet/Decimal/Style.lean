import Nondet.Decimal.Shortest

/-!
# Decimal — Style

Numbers as text.  The digits are always the shortest that read back; a style fixes the rest: the
word for infinity, whether the two zeros look different, whether a whole number keeps a point,
and whether very large and very small values are written with an exponent.
-/

namespace Nondet.Decimal

structure Style where
  infinity : String
  signedZero : Bool
  pointed : Bool
  exponential : Bool
  deriving Repr

/-- `count` zeros. -/
def zeros (count : Nat) : String := String.ofList (List.replicate count '0')

namespace Scientific

/-- The position of the point, counted from the first digit. -/
def point (d : Scientific) : Int := (toString d.digits).length + d.exponent

/-- All digits written out, with no exponent. -/
def positional (pointed : Bool) (d : Scientific) : String :=
  let text := toString d.digits
  if 0 ≤ d.exponent then
    text ++ zeros d.exponent.toNat ++ if pointed then ".0" else ""
  else if 0 < d.point then
    let whole := d.point.toNat
    String.ofList (text.toList.take whole) ++ "." ++ String.ofList (text.toList.drop whole)
  else
    "0." ++ zeros (-d.point).toNat ++ text

/-- One digit, the others behind a point, and the exponent. -/
def exponential (d : Scientific) : String :=
  let exponent := "e" ++ toString (d.point - 1)
  match (toString d.digits).toList with
  | []      => exponent
  | [c]     => String.ofList [c] ++ exponent
  | c :: cs => String.ofList [c] ++ "." ++ String.ofList cs ++ exponent

/-- Exponents are written from `10 ^ 16` on and below `10 ^ -4`. -/
def needsExponent (d : Scientific) : Bool := 16 < d.point || d.point < -3

end Scientific

namespace Style

/-- The text of a value without its sign. -/
def magnitude (style : Style) (v : Dyadic) : String :=
  if v.mantissa = 0 then if style.pointed then "0.0" else "0"
  else
    let d := v.shortest
    if style.exponential && d.needsExponent then d.exponential else d.positional style.pointed

/-- The text of a number in a style. -/
def write (style : Style) (x : Float) : String :=
  match classify x with
  | .nan            => "NaN"
  | .infinite true  => "-" ++ style.infinity
  | .infinite false => style.infinity
  | .finite v =>
    let signed := v.negative && (style.signedZero || v.mantissa ≠ 0)
    (if signed then "-" else "") ++ style.magnitude v

end Style

end Nondet.Decimal
