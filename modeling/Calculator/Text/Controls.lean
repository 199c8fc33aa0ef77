import Calculator.Text

/-! Control sequences of terminals: an escape character and an opening bracket, then digits,
semicolons and question marks, then one letter. Messages are printed without them, so that a
quoted source cannot change the look of the terminal. -/

set_option autoImplicit false

namespace Calculator

namespace Text

def isControlParameter (c : Char) : Bool := isDigit c || c == ';' || c == '?'

/-- The length of the control sequence that a text starts with, zero if it starts with none. -/
def controlLength : Text → Nat
  | '\x1b' :: '[' :: rest =>
    let parameters := rest.takeWhile isControlParameter
    match rest.drop parameters.length with
    | c :: _ => if isLetter c then parameters.length + 3 else 0
    | [] => 0
  | _ => 0

def dropControls : Nat → Text → Text
  | _, [] => []
  | skip + 1, _ :: rest => dropControls skip rest
  | 0, c :: rest =>
    match controlLength (c :: rest) with
    | 0 => c :: dropControls 0 rest
    | skip + 1 => dropControls skip rest

/-- A text without its control sequences. What their removal brings together stays. -/
def withoutControls (t : Text) : Text := dropControls 0 t

theorem controlLength_of_ne {c : Char} (rest : Text) (h : c ≠ '\x1b') :
    controlLength (c :: rest) = 0 := by
  unfold controlLength
  split
  · rename_i heq
    exact absurd (List.cons.inj heq).1 h
  · rfl

theorem withoutControls_of_notMem {t : Text} (h : '\x1b' ∉ t) : withoutControls t = t := by
  unfold withoutControls
  induction t with
  | nil => rfl
  | cons c rest ih =>
    have hc : c ≠ '\x1b' := fun e => h (e ▸ List.mem_cons_self)
    have hrest : '\x1b' ∉ rest := fun m => h (List.mem_cons_of_mem c m)
    rw [dropControls, controlLength_of_ne rest hc]
    exact congrArg (c :: ·) (ih hrest)

end Text

end Calculator
