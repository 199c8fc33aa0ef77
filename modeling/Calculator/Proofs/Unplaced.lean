import Calculator.Proofs.CutShort

/-! Trees up to the places of their nodes. Places are reported and nothing else: a tree without
them has the same source form, and its evaluation differs at most in where an error stands. -/

set_option autoImplicit false

namespace Calculator

namespace Tree

mutual

/-- A tree with all its nodes at the origin. -/
def unplaced : Tree → Tree
  | .number value _ => .number value .origin
  | .identifier name _ => .identifier name .origin
  | .operation op left right _ => .operation op left.unplaced right.unplaced .origin
  | .assignment name right _ => .assignment name right.unplaced .origin
  | .program statements _ => .program (unplacedAll statements) .origin

def unplacedAll : List Tree → List Tree
  | [] => []
  | t :: rest => t.unplaced :: unplacedAll rest

end

mutual

theorem text_unplaced : (t : Tree) → t.unplaced.text = t.text
  | .number .. => rfl
  | .identifier .. => rfl
  | .operation op left right l => by
    rw [unplaced, text, text, text_unplaced left, text_unplaced right]
  | .assignment name right l => by
    rw [unplaced, text, text, text_unplaced right]
  | .program statements l => by
    rw [unplaced, text, text, texts_unplacedAll statements]

theorem texts_unplacedAll : (ts : List Tree) → texts (unplacedAll ts) = texts ts
  | [] => rfl
  | t :: rest => by
    rw [unplacedAll, texts, texts, text_unplaced t, texts_unplacedAll rest]

end

theorem location_unplaced (t : Tree) : t.unplaced.location = .origin := by
  cases t <;> rfl

end Tree

def EvalError.unplaced : EvalError → EvalError
  | .symbolNotFound name _ => .symbolNotFound name .origin
  | .nestingTooDeep _ => .nestingTooDeep .origin
  | .unimplemented gap => .unimplemented gap
  | .zeroDivision => .zeroDivision

def EvalFailure.unplaced : EvalFailure → EvalFailure
  | .error e => .error e.unplaced
  | .tooDeep => .tooDeep

section AdaptExcept
variable {ε ε' σ α β : Type} (f : ε → ε')

theorem adaptExcept_bind (x : EStateM ε σ α) (g : α → EStateM ε σ β) :
    EStateM.adaptExcept f (x >>= g) =
      EStateM.adaptExcept f x >>= fun a => EStateM.adaptExcept f (g a) := by
  funext s
  simp only [EStateM.adaptExcept, bind, EStateM.bind]
  cases x s <;> rfl

end AdaptExcept

namespace Tree

theorem evaluate_unplaced (t : Tree) (limit : Nat) :
    t.unplaced.evaluate limit = EStateM.adaptExcept EvalFailure.unplaced (t.evaluate limit) := by
  induction t using evaluationInduction generalizing limit with
  | number value l => cases limit <;> rfl
  | identifier name l =>
    cases limit with
    | zero => rfl
    | succ limit =>
      funext symbols
      rw [unplaced, EStateM.adaptExcept, evaluate_identifier, evaluate_identifier]
      cases symbols.find? name <;> rfl
  | operation op left right l ihl ihr =>
    cases limit with
    | zero => rfl
    | succ limit =>
      rw [unplaced, evaluate, evaluate, adaptExcept_bind, ihl]
      congr
      funext x
      rw [adaptExcept_bind, ihr]
      congr
      funext y
      cases op.value x y with
      | ok value => rfl
      | error fault => cases fault <;> rfl
  | assignment name right l ih =>
    cases limit with
    | zero => rfl
    | succ limit =>
      rw [unplaced, evaluate, evaluate, adaptExcept_bind, ih]
      rfl
  | program statements l => cases limit <;> rfl

theorem evaluateStatement_unplaced (t : Tree) (limit : Nat) :
    t.unplaced.evaluateStatement limit =
      EStateM.adaptExcept EvalError.unplaced (t.evaluateStatement limit) := by
  funext symbols
  simp only [evaluateStatement, evaluate_unplaced, location_unplaced, EStateM.adaptExcept]
  cases t.evaluate limit symbols with
  | ok value symbols' => rfl
  | error e symbols' => cases e <;> rfl

theorem evaluateAll_unplacedAll (ts : List Tree) (limit : Nat) :
    evaluateAll limit (unplacedAll ts) =
      EStateM.adaptExcept EvalError.unplaced (evaluateAll limit ts) := by
  induction ts with
  | nil => rfl
  | cons t rest ih =>
    rw [unplacedAll, evaluateAll, evaluateAll, adaptExcept_bind, evaluateStatement_unplaced, ih]
    congr
    funext value
    rw [adaptExcept_bind]
    rfl

theorem run_unplaced (t : Tree) (limit : Nat) :
    t.unplaced.run limit = EStateM.adaptExcept EvalError.unplaced (t.run limit) := by
  cases t with
  | program statements l => exact evaluateAll_unplacedAll statements limit
  | _ => rfl

section Unplaced
variable {t u : Tree} {limit : Nat} {symbols symbols' : Symbols}

theorem adaptExcept_eq_of_unplaced (h : t.unplaced = u.unplaced) (limit : Nat) :
    EStateM.adaptExcept EvalFailure.unplaced (t.evaluate limit) =
      EStateM.adaptExcept EvalFailure.unplaced (u.evaluate limit) := by
  rw [← evaluate_unplaced, ← evaluate_unplaced, h]

theorem evaluate_ok_of_unplaced (h : t.unplaced = u.unplaced) {value : Float}
    (ht : t.evaluate limit symbols = .ok value symbols') :
    u.evaluate limit symbols = .ok value symbols' := by
  have hsame := congrFun (adaptExcept_eq_of_unplaced h limit) symbols
  simp only [EStateM.adaptExcept, ht] at hsame
  cases hu : u.evaluate limit symbols with
  | ok value' symbols'' =>
    rw [hu] at hsame
    cases hsame
    rfl
  | error e symbols'' =>
    rw [hu] at hsame
    cases hsame

theorem evaluate_unbound_of_unplaced (h : t.unplaced = u.unplaced) {name : Text} {l : Location}
    (ht : t.evaluate limit symbols = .error (.error (.symbolNotFound name l)) symbols') :
    ∃ l', u.evaluate limit symbols = .error (.error (.symbolNotFound name l')) symbols' := by
  have hsame := congrFun (adaptExcept_eq_of_unplaced h limit) symbols
  simp only [EStateM.adaptExcept, ht] at hsame
  cases hu : u.evaluate limit symbols with
  | ok value symbols'' =>
    rw [hu] at hsame
    cases hsame
  | error e symbols'' =>
    rw [hu] at hsame
    rcases e with (⟨key, l'⟩ | l' | gap) | _
    · cases hsame
      exact ⟨l', rfl⟩
    all_goals cases hsame

end Unplaced

/-- Trees that differ in their places only give the same results and leave the same table, and
their errors differ in places only. -/
theorem run_eq_of_unplaced {t t' : Tree} (h : t.unplaced = t'.unplaced) (limit : Nat)
    (symbols : Symbols) :
    (symbols.run (t.run limit)).1.mapError EvalError.unplaced =
        (symbols.run (t'.run limit)).1.mapError EvalError.unplaced ∧
      (symbols.run (t.run limit)).2 = (symbols.run (t'.run limit)).2 := by
  have hrun (u : Tree) : symbols.run (u.unplaced.run limit) =
      ((symbols.run (u.run limit)).1.mapError EvalError.unplaced,
        (symbols.run (u.run limit)).2) := by
    rw [run_unplaced, Symbols.run, EStateM.adaptExcept, Symbols.run]
    cases u.run limit symbols <;> rfl
  have hsame := hrun t'
  rw [← h, hrun t] at hsame
  exact Prod.mk.inj hsame

end Tree

end Calculator
