import Calculator.Decimal.Shortest

/-! How a float is laid out. The digits are always the shortest ones; a layout says which
magnitudes are written with a plain point and how an exponent looks. -/

set_option autoImplicit false

namespace Calculator

/-- The decisions of a float format. Magnitudes from `lowest` up to fifteen are written with a
plain point, all others with a signed exponent of at least `exponentWidth` digits. -/
structure Layout where
  lowest : Int
  exponentWidth : Nat
  nan : Text
  infinity : Text
  minusInfinity : Text

namespace Layout

/-- Results and printed trees: exponents have two digits, a plain point reaches down to `0.0001`. -/
def shown : Layout := ⟨-4, 2, "nan".toList, "inf".toList, "-inf".toList⟩

/-- Dumped trees: exponents are not padded, a plain point reaches down to `0.00001`, and what is
not finite is null. -/
def dumped : Layout := ⟨-5, 1, "null".toList, "null".toList, "null".toList⟩

/-- A digit string with a point in it. The point stands after `whole` digits; a whole number
keeps one zero behind it. -/
def pointed (digits : Text) (whole : Int) : Text :=
  if whole ≤ 0 then '0' :: '.' :: List.replicate (-whole).toNat '0' ++ digits
  else
    let front := digits.take whole.toNat
    let behind := digits.drop whole.toNat
    front ++ List.replicate (whole.toNat - digits.length) '0' ++
      '.' :: (if behind.isEmpty then ['0'] else behind)

def scientific (l : Layout) (digits : Text) (magnitude : Int) : Text :=
  let fraction := digits.drop 1
  digits.take 1 ++ (if fraction.isEmpty then [] else '.' :: fraction) ++
    'e' :: (if magnitude < 0 then '-' else '+') ::
      Text.zeroPad l.exponentWidth (Text.ofNat magnitude.natAbs)

def writeDecimal (l : Layout) (d : Decimal) : Text :=
  let digits := Text.ofNat d.digits
  if l.lowest ≤ d.magnitude ∧ d.magnitude < 16 then pointed digits (d.magnitude + 1)
  else l.scientific digits d.magnitude

def signed (negative : Bool) (t : Text) : Text := if negative then '-' :: t else t

def write (l : Layout) (x : Float) : Text :=
  match Binary.ofFloat x with
  | .nan => l.nan
  | .infinite negative => if negative then l.minusInfinity else l.infinity
  | .finite negative mantissa exponent =>
    signed negative <|
      if mantissa = 0 then "0.0".toList else l.writeDecimal (Decimal.shortest mantissa exponent)

end Layout

end Calculator
