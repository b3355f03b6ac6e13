/-!
# Decimal — Reading

Numbers read from decimal text.  A numeral is digits with an optional fraction and an optional
exponent; it stands for the number nearest to its exact value, with the even mantissa on a tie.
`read?` also takes a sign, the words for infinity and for not a number, and a point with digits on
one side only.
-/

namespace Nondet.Decimal

/-- The value of decimal digits. -/
def digitsValue (digits : List Char) : Nat :=
  digits.foldl (fun n c => 10 * n + (c.toNat - '0'.toNat)) 0

/-- The parts of a numeral: digits before and after the point, and the exponent. -/
structure Numeral where
  whole : List Char
  fraction : List Char
  exponent : Int
  deriving DecidableEq, Repr, Inhabited

/-- The number nearest to the numeral. -/
def Numeral.value (n : Numeral) : Float :=
  let mantissa := digitsValue (n.whole ++ n.fraction)
  let exponent := n.exponent - n.fraction.length
  Float.ofScientific mantissa (exponent < 0) exponent.natAbs

/-- The digits behind a point at the front, none when there is no point. -/
def scanFraction : List Char → List Char × List Char
  | '.' :: r => (r.takeWhile Char.isDigit, r.dropWhile Char.isDigit)
  | r        => ([], r)

/-- A sign at the front, which may be left out: whether it is negative. -/
def scanSign : List Char → Bool × List Char
  | '+' :: r => (false, r)
  | '-' :: r => (true, r)
  | r        => (false, r)

/-- An exponent mark, an optional sign and at least one digit. -/
def scanExponent? : List Char → Option (Int × List Char)
  | mark :: rest =>
    if mark = 'e' || mark = 'E' then
      let (negative, digits) := scanSign rest
      let exponent := digits.takeWhile Char.isDigit
      if exponent.isEmpty then none
      else
        let size : Int := digitsValue exponent
        some (if negative then -size else size, digits.dropWhile Char.isDigit)
    else none
  | [] => none

/-- The exponent at the front, zero when there is none. -/
def scanExponent (cs : List Char) : Int × List Char := (scanExponent? cs).getD (0, cs)

/-- A whole text that is a numeral, with digits on at least one side of the point. -/
def numeral? (cs : List Char) : Option Numeral :=
  let whole := cs.takeWhile Char.isDigit
  let (fraction, rest) := scanFraction (cs.dropWhile Char.isDigit)
  let (exponent, rest) := scanExponent rest
  if (whole ++ fraction).isEmpty || !rest.isEmpty then none else some ⟨whole, fraction, exponent⟩

/-- The number without a sign that a text stands for. -/
def magnitude? (cs : List Char) : Option Float :=
  let word := String.ofList (cs.map Char.toLower)
  if word = "inf" || word = "infinity" then some (1.0 / 0.0)
  else if word = "nan" then some (0.0 / 0.0)
  else (numeral? cs).map Numeral.value

/-- The number that a text stands for. -/
def read? (s : String) : Option Float :=
  match s.toList with
  | '-' :: r => (magnitude? r).map Float.neg
  | '+' :: r => magnitude? r
  | r        => magnitude? r

end Nondet.Decimal
