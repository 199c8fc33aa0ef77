import Calculator.Automaton

/-! The automaton of identifiers: a letter or an underscore, then letters, digits and
underscores. -/

set_option autoImplicit false

namespace Calculator

inductive IdentifierState
  | initial
  | word
  deriving DecidableEq, Repr

namespace IdentifierState

def text : IdentifierState → Text
  | .initial => "initial".toList
  | .word => "alphanumeric_or_underscore".toList

/-- A first character that is no digit, then any word characters. -/
def next : IdentifierState → Char → Option IdentifierState
  | .initial, c => if Text.isWord c && !Text.isDigit c then some .word else none
  | .word, c => if Text.isWord c then some .word else none

end IdentifierState

def identifierAutomaton : Automaton IdentifierState where
  states := [.initial, .word]
  initial := .initial
  accepting := [.word]
  next := IdentifierState.next
  initial_mem := by simp
  accepting_subset := by simp

end Calculator
