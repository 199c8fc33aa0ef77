import Calculator.Text
import Calculator.Token

/-! Binary operators. Four compute, five compare; a comparison gives one for true and zero for
false. -/

set_option autoImplicit false

namespace Calculator

/-- A binary operator. Trees made by hand may hold an operator that is none of the nine. -/
inductive Operator
  | sum
  | difference
  | product
  | quotient
  | greater
  | greaterEqual
  | less
  | lessEqual
  | equal
  | other (spelling : Text)
  deriving DecidableEq, Repr

/-- Why an operator has no value: it has no meaning, or a quotient was asked of a zero divisor. -/
inductive OperatorFault
  | undefined
  | zeroDivision
  deriving DecidableEq, Repr

namespace Operator

def spelling : Operator → Text
  | .sum => ['+']
  | .difference => ['-']
  | .product => ['*']
  | .quotient => ['/']
  | .greater => ['>']
  | .greaterEqual => ['>', '=']
  | .less => ['<']
  | .lessEqual => ['<', '=']
  | .equal => ['=', '=']
  | .other spelling => spelling

def known : List Operator :=
  [.sum, .difference, .product, .quotient, .greater, .greaterEqual, .less, .lessEqual, .equal]

def ofSpelling? (spelling : Text) : Option Operator :=
  known.find? fun op => op.spelling == spelling

def relational? : TokenKind → Option Operator
  | .greater => some .greater
  | .greaterEqual => some .greaterEqual
  | .less => some .less
  | .lessEqual => some .lessEqual
  | .equal => some .equal
  | _ => none

def additive? : TokenKind → Option Operator
  | .plus => some .sum
  | .minus => some .difference
  | _ => none

def multiplicative? : TokenKind → Option Operator
  | .times => some .product
  | .divide => some .quotient
  | _ => none

/-- The distance below which two numbers count as equal: the gap above one, `2 ^ -52`. -/
def tolerance : Float := Float.ofBits 0x3cb0000000000000

def truth (b : Bool) : Float := if b then 1.0 else 0.0

def infinity : Float := Float.ofBits 0x7ff0000000000000

def notANumber : Float := Float.ofBits 0x7ff8000000000000

/-- The size of one number with the sign of another; zeros have a sign too. -/
def copySign (size other : Float) : Float :=
  if other.toBits.toNat / 0x8000000000000000 == 1 then -size.abs else size.abs

def checkedQuotient (x y : Float) : Except OperatorFault Float :=
  if y == 0.0 then .error .zeroDivision else .ok (x / y)

/-- Division with an answer for zero divisors, which never get to the checked quotient. -/
def divide (x y : Float) : Except OperatorFault Float :=
  if y != 0.0 then checkedQuotient x y
  else if x == 0.0 || x.isNaN then .ok notANumber
  else .ok (copySign infinity x * copySign 1.0 y)

def value : Operator → Float → Float → Except OperatorFault Float
  | .sum, x, y => .ok (x + y)
  | .difference, x, y => .ok (x - y)
  | .product, x, y => .ok (x * y)
  | .quotient, x, y => divide x y
  | .greater, x, y => .ok (truth (decide (y < x)))
  | .greaterEqual, x, y => .ok (truth (decide (y ≤ x)))
  | .less, x, y => .ok (truth (decide (x < y)))
  | .lessEqual, x, y => .ok (truth (decide (x ≤ y)))
  | .equal, x, y => .ok (truth (decide ((x - y).abs < tolerance)))
  | .other _, _, _ => .error .undefined

end Operator

end Calculator
