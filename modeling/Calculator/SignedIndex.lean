/-! Look-up by a signed index. An index at or past the end finds nothing, a negative index
counts back from the end, and an index before the first element is refused. A refusal says
whether the index still fits a signed word of 64 bits. -/

set_option autoImplicit false

namespace Calculator

/-- The refusal of an index: it lies before the first element, or even below every signed
word of 64 bits. -/
inductive OutOfRange
  | beforeStart
  | belowWords
  deriving DecidableEq, Repr

def wordBound : Int := 0x8000000000000000

def noWordMessage : List Char := "cannot fit 'int' into an index-sized integer".toList

def OutOfRange.message (container : List Char) : OutOfRange → List Char
  | .beforeStart => container ++ " index out of range".toList
  | .belowWords => noWordMessage

/-- The element at a signed index: nothing past the end, counted from the end below zero. -/
def signedLookup {α : Type} (xs : List α) (index : Int) : Except OutOfRange (Option α) :=
  if (xs.length : Int) ≤ index then .ok none
  else if 0 ≤ index then .ok xs[index.toNat]?
  else if 0 ≤ index + xs.length then .ok xs[(index + xs.length).toNat]?
  else if -wordBound ≤ index then .error .beforeStart
  else .error .belowWords

end Calculator
