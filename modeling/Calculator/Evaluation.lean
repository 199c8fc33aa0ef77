import Calculator.Symbols
import Calculator.Tree

/-! Evaluation of trees. Operands are evaluated left to right, an assignment binds its target
once its right side has a value, and what was bound stays bound when a later part fails. -/

set_option autoImplicit false

namespace Calculator

inductive Gap
  | operator (spelling : Text)
  | evaluation (sort : Text)
  | running (sort : Text)
  deriving DecidableEq, Repr

def Gap.description : Gap → Text
  | .operator spelling => "Eval for operator ".toList ++ spelling
  | .evaluation sort => "Eval for type ".toList ++ sort
  | .running sort => "Run for type ".toList ++ sort

/-- Why a program has no result, and where. The last cause is a fault of the runtime, which has no
report. -/
inductive EvalError
  | symbolNotFound (name : Text) (location : Location)
  | nestingTooDeep (location : Location)
  | unimplemented (gap : Gap)
  | zeroDivision
  deriving DecidableEq, Repr

def OperatorFault.error (op : Operator) : OperatorFault → EvalError
  | .undefined => .unimplemented (.operator op.spelling)
  | .zeroDivision => .zeroDivision

/-- Why a tree has no value: an error, or a node below the deepest level that is walked. -/
inductive EvalFailure
  | error (error : EvalError)
  | tooDeep
  deriving DecidableEq, Repr

abbrev Evaluation (ε : Type) := EStateM ε Symbols

namespace Tree

def walkLimit : Nat := 1000

def evaluate : Tree → (limit : Nat) → Evaluation EvalFailure Float
  | _, 0 => throw .tooDeep
  | .number value _, _ + 1 => return value
  | .identifier name l, _ + 1 => do
    let symbols ← get
    match symbols.find? name with
    | some value => return value
    | none => throw (.error (.symbolNotFound name l))
  | .operation op left right _, limit + 1 => do
    let x ← left.evaluate limit
    let y ← right.evaluate limit
    match op.value x y with
    | .ok value => return value
    | .error fault => throw (.error (fault.error op))
  | .assignment name right _, limit + 1 => do
    let value ← right.evaluate limit
    modify fun symbols => symbols.bind name value
    return value
  | .program statements l, _ + 1 =>
    throw (.error (.unimplemented (.evaluation (Tree.program statements l).sort)))

/-- The value of a statement; a statement that is too deep is reported where it stands. -/
def evaluateStatement (t : Tree) (limit : Nat) : Evaluation EvalError Float := fun symbols =>
  match t.evaluate limit symbols with
  | .ok value symbols' => .ok value symbols'
  | .error (.error e) symbols' => .error e symbols'
  | .error .tooDeep symbols' => .error (.nestingTooDeep t.location) symbols'

def evaluateAll (limit : Nat) : List Tree → Evaluation EvalError (List Float)
  | [] => return []
  | t :: rest => do
    let value ← t.evaluateStatement limit
    let values ← evaluateAll limit rest
    return value :: values

def run (limit : Nat) : Tree → Evaluation EvalError (List Float)
  | .program statements _ => evaluateAll limit statements
  | t => throw (.unimplemented (.running t.sort))

end Tree

namespace Symbols
variable {ε α : Type}

def run (s : Symbols) (computation : Evaluation ε α) : Except ε α × Symbols :=
  match computation s with
  | .ok value s' => (.ok value, s')
  | .error e s' => (.error e, s')

variable {computation : Evaluation ε α} {s s' : Symbols}

theorem run_of_ok {value : α} (h : computation s = .ok value s') :
    s.run computation = (.ok value, s') := by
  rw [run, h]

theorem run_of_error {e : ε} (h : computation s = .error e s') :
    s.run computation = (.error e, s') := by
  rw [run, h]

end Symbols

end Calculator
