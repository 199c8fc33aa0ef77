import Calculator.Evaluation

/-! Drafts: trees as they are described by hand, before anything is checked. A draft becomes a
tree if every place has coordinates from zero on, every operator is known, and every part is
itself a tree. A bare text is no tree, but it may stand alone where a tree is expected. -/

set_option autoImplicit false

namespace Calculator

/-- A description of a tree. An unchecked operation takes any operator. -/
inductive Draft
  | text (text : Text)
  | number (value : Float) (line column : Int)
  | identifier (name : Text) (line column : Int)
  | operation (spelling : Text) (checked : Bool) (left right : Draft) (line column : Int)
  | assignment (name : Text) (right : Draft) (line column : Int)
  | program (statements : List Draft) (line column : Int)

inductive Subject
  | tree (tree : Tree)
  | text (text : Text)

namespace Subject

def tree? : Subject → Option Tree
  | .tree t => some t
  | .text _ => none

def textSort : Text := "str".toList

def evaluate (limit : Nat) : Subject → Evaluation EvalFailure Float
  | .tree t => t.evaluate limit
  | .text _ => throw (.error (.unimplemented (.evaluation textSort)))

def run (limit : Nat) : Subject → Evaluation EvalError (List Float)
  | .tree t => t.run limit
  | .text _ => throw (.unimplemented (.running textSort))

/-- A tree in source form, unless it is deeper than the limit; a bare text as it stands. -/
def text? (limit : Nat) : Subject → Option Text
  | .tree t => if t.height ≤ limit then some t.text else none
  | .text t => some t

end Subject

namespace Draft

def operator? (spelling : Text) (checked : Bool) : Option Operator :=
  match Operator.ofSpelling? spelling with
  | some op => some op
  | none => if checked then none else some (.other spelling)

mutual

def build? : Draft → Option Subject
  | .text t => some (.text t)
  | .number value line column => do
    let l ← Location.ofInts? line column
    return .tree (.number value l)
  | .identifier name line column => do
    let l ← Location.ofInts? line column
    return .tree (.identifier name l)
  | .operation spelling checked left right line column => do
    let op ← operator? spelling checked
    let left ← (← left.build?).tree?
    let right ← (← right.build?).tree?
    let l ← Location.ofInts? line column
    return .tree (.operation op left right l)
  | .assignment name right line column => do
    let right ← (← right.build?).tree?
    let l ← Location.ofInts? line column
    return .tree (.assignment name right l)
  | .program statements line column => do
    let statements ← buildAll? statements
    let l ← Location.ofInts? line column
    return .tree (.program statements l)

def buildAll? : List Draft → Option (List Tree)
  | [] => some []
  | d :: rest => do
    let t ← (← d.build?).tree?
    let ts ← buildAll? rest
    return t :: ts

end

end Draft

end Calculator
