import Calculator.Decimal

/-! The shortest decimal of a float: the fewest digits that read back as the same float, and of
several such decimals the nearest. -/

set_option autoImplicit false

namespace Calculator.Decimal

/-- The exponent `k` with `10 ^ k ≤ num / den < 10 ^ (k + 1)`, for positive arguments. -/
def decimalLog (num den : Nat) : Int :=
  if den ≤ num then (digitCount (num / den) : Int) - 1
  else -(digitCount ((den - 1) / num) : Int)

/-- The neighbours of `num / den` on the grid of the multiples of `10 ^ exponent`, the nearer one
first. On a tie the even one comes first. -/
def neighbours (num den : Nat) (exponent : Int) : List Decimal :=
  let step := Ratio.scaled 10 den exponent
  let floor := num * step.den / step.num
  let twice := 2 * (num * step.den % step.num)
  if twice < step.num ∨ (twice = step.num ∧ floor % 2 = 0) then
    [⟨floor, exponent⟩, ⟨floor + 1, exponent⟩]
  else [⟨floor + 1, exponent⟩, ⟨floor, exponent⟩]

def exact (mantissa : Nat) (exponent : Int) : Decimal :=
  if 0 ≤ exponent then ⟨mantissa * Nat.pow 2 exponent.toNat, 0⟩
  else ⟨mantissa * Nat.pow 5 (-exponent).toNat, exponent⟩

/-- The decimals tried for `mantissa * 2 ^ exponent`: the neighbours on the grids of one to
seventeen digits, and at last the exact expansion. -/
def candidates (mantissa : Nat) (exponent : Int) : List Decimal :=
  let r := Ratio.scaled 2 mantissa exponent
  let top := decimalLog r.num r.den
  (List.range 17).flatMap (fun n : Nat => neighbours r.num r.den (top - n)) ++
    [exact mantissa exponent]

def shortest (mantissa : Nat) (exponent : Int) : Decimal :=
  let r := Ratio.scaled 2 mantissa exponent
  let bits := nearestBits r.num r.den
  let found := (candidates mantissa exponent).find? fun d => d.toBits == bits
  (found.getD (exact mantissa exponent)).trimmed

end Calculator.Decimal
