import Calculator.Text

/-! Options on a command line. Long options start with two dashes and may carry their value
behind an equals sign; short options are single letters behind one dash, and flags among them
may share it. A double dash ends the options, a single dash alone is a word. -/

set_option autoImplicit false

namespace Calculator

structure OptionRule where
  long : Text
  short : Option Char
  takesValue : Bool
  deriving DecidableEq, Repr

structure ArgumentState where
  given : List (Text × Text)
  words : List Text
  awaiting : Option OptionRule
  accepting : Bool
  deriving DecidableEq, Repr

namespace ArgumentState

def start : ArgumentState := ⟨[], [], none, true⟩

def give (s : ArgumentState) (rule : OptionRule) (value : Text) : ArgumentState :=
  { s with given := s.given ++ [(rule.long, value)], awaiting := none }

/-- Letters behind a single dash. The first one that takes a value takes the rest as its value, or
else the next argument. -/
def letters (rules : List OptionRule) : Text → ArgumentState → Option ArgumentState
  | [], s => some s
  | c :: rest, s =>
    match rules.find? fun rule => rule.short == some c with
    | none => none
    | some rule =>
      if rule.takesValue then
        some (if rest.isEmpty then { s with awaiting := some rule } else s.give rule rest)
      else letters rules rest (s.give rule [])

def longOption (rules : List OptionRule) (argument : Text) (s : ArgumentState) :
    Option ArgumentState :=
  let name := argument.takeWhile (· != '=')
  match rules.find? (fun rule => rule.long == name), argument.dropWhile (· != '=') with
  | none, _ => none
  | some rule, [] =>
    some (if rule.takesValue then { s with awaiting := some rule } else s.give rule [])
  | some rule, _ :: value => if rule.takesValue then some (s.give rule value) else none

/-- The next argument. If words end the options, nothing behind the first word is an option. -/
def step (rules : List OptionRule) (wordsEnd : Bool) (s : ArgumentState) (argument : Text) :
    Option ArgumentState :=
  match s.awaiting, s.accepting with
  | some rule, _ => some (s.give rule argument)
  | none, false => some { s with words := s.words ++ [argument] }
  | none, true =>
    match argument with
    | ['-', '-'] => some { s with accepting := false }
    | '-' :: '-' :: _ => longOption rules argument s
    | '-' :: c :: rest => letters rules (c :: rest) s
    | _ => some { s with words := s.words ++ [argument], accepting := !wordsEnd }

end ArgumentState

/-- The options given and the words of a command line, unless an option is unknown, has a value
that it does not take, or lacks the value that it takes. -/
def splitArguments (rules : List OptionRule) (wordsEnd : Bool) (arguments : List Text) :
    Option (List (Text × Text) × List Text) := do
  let s ← arguments.foldlM (ArgumentState.step rules wordsEnd) .start
  if s.awaiting.isSome then none else return (s.given, s.words)

end Calculator
