import Calculator.Decimal.Layout

/-! Floats with a fixed number of decimal places. The exact binary value is rounded, a half to
the even neighbour, and the sign is kept also when the value rounds to zero. -/

set_option autoImplicit false

namespace Calculator

/-- `mantissa * 2 ^ exponent` with the given number of places. -/
def fixedMagnitude (places mantissa : Nat) (exponent : Int) : Text :=
  let r := Ratio.scaled 2 mantissa exponent
  let digits := Text.zeroPad (places + 1) (Text.ofNat (roundDiv (r.num * Nat.pow 10 places) r.den))
  let whole := digits.length - places
  digits.take whole ++ (if places = 0 then [] else '.' :: digits.drop whole)

def fixedPlaces (places : Nat) (x : Float) : Text :=
  match Binary.ofFloat x with
  | .nan => "nan".toList
  | .infinite negative => Layout.signed negative "inf".toList
  | .finite negative mantissa exponent =>
    Layout.signed negative (fixedMagnitude places mantissa exponent)

end Calculator
