import Calculator.Decimal.Layout
import Calculator.Location
import Calculator.Operator

/-! Trees of expressions. Every node records a place: a number and an identifier where they
stand, an operation where its operator stands, an assignment where its target stands. -/

set_option autoImplicit false

namespace Calculator

/-- A tree. A source gives a program of at most one statement; trees made by hand may nest
programs and assignments anywhere. -/
inductive Tree
  | number (value : Float) (location : Location)
  | identifier (name : Text) (location : Location)
  | operation (op : Operator) (left right : Tree) (location : Location)
  | assignment (name : Text) (right : Tree) (location : Location)
  | program (statements : List Tree) (location : Location)

namespace Tree

def location : Tree → Location
  | .number _ l => l
  | .identifier _ l => l
  | .operation _ _ _ l => l
  | .assignment _ _ l => l
  | .program _ l => l

def sort : Tree → Text
  | .number .. => "Number".toList
  | .identifier .. => "Identifier".toList
  | .operation .. => "BinaryOperation".toList
  | .assignment .. => "Assignment".toList
  | .program .. => "Root".toList

mutual

def height : Tree → Nat
  | .number .. => 1
  | .identifier .. => 1
  | .operation _ left right _ => max left.height right.height + 1
  | .assignment _ right _ => right.height + 1
  | .program statements _ => heightAll statements + 1

def heightAll : List Tree → Nat
  | [] => 0
  | t :: rest => max t.height (heightAll rest)

end

mutual

/-- A tree in source form. Operations are parenthesised, statements stand on lines of their own. -/
def text : Tree → Text
  | .number value _ => Layout.shown.write value
  | .identifier name _ => name
  | .operation op left right _ =>
    '(' :: left.text ++ ' ' :: op.spelling ++ ' ' :: right.text ++ [')']
  | .assignment name right _ => name ++ " = ".toList ++ right.text
  | .program statements _ => Text.join ['\n'] (texts statements)

def texts : List Tree → List Text
  | [] => []
  | t :: rest => t.text :: texts rest

end

mutual

/-- Whether two trees have the same nodes at the same places. Numbers are compared by value. -/
def same : Tree → Tree → Bool
  | .number x l, .number y m => x == y && l == m
  | .identifier a l, .identifier b m => a == b && l == m
  | .operation o x y l, .operation p z w m => o == p && x.same z && y.same w && l == m
  | .assignment a x l, .assignment b y m => a == b && x.same y && l == m
  | .program xs l, .program ys m => sameAll xs ys && l == m
  | _, _ => false

def sameAll : List Tree → List Tree → Bool
  | [], [] => true
  | x :: xs, y :: ys => x.same y && sameAll xs ys
  | _, _ => false

end

end Tree

end Calculator
