import Calculator.Text
import Calculator.Decimal.Rounding

/-! Decimals: a natural number of units of a power of ten. -/

set_option autoImplicit false

namespace Calculator

/-- The decimal `digits * 10 ^ exponent`. -/
structure Decimal where
  digits : Nat
  exponent : Int
  deriving DecidableEq, Repr

namespace Decimal

def digitCount (n : Nat) : Nat := (Text.ofNat n).length

def magnitude (d : Decimal) : Int := d.exponent + digitCount d.digits - 1

/-- Stored bits of the float nearest to a decimal. Beyond the magnitudes of floats they are known
without computing the power of ten. -/
def toBits (d : Decimal) : Nat :=
  if d.digits = 0 then 0
  else if 310 < d.magnitude then infinityBits
  else if d.magnitude < -330 then 0
  else
    let r := Ratio.scaled 10 d.digits d.exponent
    nearestBits r.num r.den

def toFloat (d : Decimal) : Float := Float.ofBits d.toBits.toUInt64

/-- The same decimal without trailing zeros. The bound on the number of steps is the number of
digits. -/
def trimmed (d : Decimal) : Decimal := go (digitCount d.digits) d
where
  go : Nat → Decimal → Decimal
    | 0, d => d
    | n + 1, d =>
      if d.digits ≠ 0 ∧ d.digits % 10 = 0 then go n ⟨d.digits / 10, d.exponent + 1⟩ else d

end Decimal

end Calculator
