import Calculator.Text

/-! Places in a source: a line and a column, both counted from zero. -/

set_option autoImplicit false

namespace Calculator

structure Location where
  line : Nat
  column : Nat
  deriving DecidableEq, Repr

namespace Location

def origin : Location := ⟨0, 0⟩

/-- The location with the given coordinates; none of them may be negative. -/
def ofInts? (line column : Int) : Option Location :=
  if 0 ≤ line ∧ 0 ≤ column then some ⟨line.toNat, column.toNat⟩ else none

def text (l : Location) : Text :=
  '(' :: Text.ofNat l.line ++ ", ".toList ++ Text.ofNat l.column ++ [')']

end Location

end Calculator
