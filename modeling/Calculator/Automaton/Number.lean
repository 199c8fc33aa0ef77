import Calculator.Automaton

/-! The automaton of number literals: digits, a point with digits behind it, an exponent with
digits behind it. The point and the exponent may be left out, the digits may not. -/

set_option autoImplicit false

namespace Calculator

/-- States of the number automaton, named for what was read last. -/
inductive NumberState
  | initial
  | integer
  | point
  | fraction
  | exponentMark
  | exponentSign
  | exponent
  deriving DecidableEq, Repr

namespace NumberState

def text : NumberState → Text
  | .initial => "initial".toList
  | .integer => "integer".toList
  | .point => "begin_fractional".toList
  | .fraction => "fractional".toList
  | .exponentMark => "begin_exponent".toList
  | .exponentSign => "begin_signed_exponent".toList
  | .exponent => "exponent".toList

def isMark (c : Char) : Bool := c == 'e' || c == 'E'

def isSign (c : Char) : Bool := c == '+' || c == '-'

def next : NumberState → Char → Option NumberState
  | .initial, c => if Text.isDigit c then some .integer else none
  | .integer, c =>
    if Text.isDigit c then some .integer
    else if c == '.' then some .point
    else if isMark c then some .exponentMark
    else none
  | .point, c => if Text.isDigit c then some .fraction else none
  | .fraction, c =>
    if Text.isDigit c then some .fraction
    else if isMark c then some .exponentMark
    else none
  | .exponentMark, c =>
    if Text.isDigit c then some .exponent
    else if isSign c then some .exponentSign
    else none
  | .exponentSign, c => if Text.isDigit c then some .exponent else none
  | .exponent, c => if Text.isDigit c then some .exponent else none

end NumberState

def numberAutomaton : Automaton NumberState where
  states := [.initial, .integer, .point, .fraction, .exponentMark, .exponentSign, .exponent]
  initial := .initial
  accepting := [.integer, .fraction, .exponent]
  next := NumberState.next
  initial_mem := by simp
  accepting_subset := by simp

end Calculator
