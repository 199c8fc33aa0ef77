import Calculator.Decimal.Binary

/-! Rounding quotients. A quotient of natural numbers is rounded to the nearest integer, a half
to the even neighbour; the same rule at a power-of-two scale gives the nearest float. -/

set_option autoImplicit false

namespace Calculator

/-- The integer nearest to `num / den`, a half going to the even neighbour. -/
def roundDiv (num den : Nat) : Nat :=
  let floor := num / den
  let twice := 2 * (num % den)
  if twice < den then floor
  else if den < twice then floor + 1
  else if floor % 2 = 0 then floor else floor + 1

/-- The exponent `e` with `2 ^ e ≤ num / den < 2 ^ (e + 1)`, for positive arguments. -/
def binaryLog (num den : Nat) : Int :=
  let guess : Int := (num.log2 : Int) - den.log2
  let limit := Ratio.scaled 2 den guess
  if limit.num ≤ num * limit.den then guess else guess - 1

def infinityBits : Nat := 0x7ff0000000000000

/-- Stored bits of the float nearest to `num / den`, a half going to the even mantissa. The bits
of a non-negative float count the floats below it, so a mantissa that rounds up to the next
power of two, and a value that rounds up to infinity, need no case of their own. -/
def nearestBits (num den : Nat) : Nat :=
  if num = 0 then 0 else
    let unit := max (binaryLog num den - 52) (-1074)
    let step := Ratio.scaled 2 den unit
    min ((unit + 1074).toNat * 0x10000000000000 + roundDiv (num * step.den) step.num) infinityBits

end Calculator
